import Binder.Parcel.Incoming

/-! The typed maps of a `PersistableBundle`. -/
namespace Binder.Parcel
open Binder.Lib

inductive PlainType
  | boolean | integer | long | double | string
  | booleanArray | intArray | longArray | doubleArray | stringArray
  deriving DecidableEq, Repr

namespace PlainType

def kind : PlainType → Kind
  | .boolean | .integer | .long | .double => .scalar
  | .string | .booleanArray | .intArray | .longArray | .doubleArray | .stringArray => .object

def ty : (t : PlainType) → Ty Empty t.kind
  | .boolean => .scalar (.integral .bool)
  | .integer => .scalar (.integral .int32)
  | .long => .scalar (.integral .int64)
  | .double => .scalar .double
  | .string => .string16
  | .booleanArray => .vector (.scalar (.integral .bool))
  | .intArray => .vector (.scalar (.integral .int32))
  | .longArray => .vector (.scalar (.integral .int64))
  | .doubleArray => .vector (.scalar .double)
  | .stringArray => .vector .string16

abbrev Val (t : PlainType) : Type := t.ty.Val noParcelable

end PlainType

inductive ValType
  | plain (t : PlainType)
  | persistableBundle
  deriving DecidableEq, Repr

namespace ValType

@[reducible] def Val : ValType → Type
  | .plain t => t.Val
  | .persistableBundle => PersistableBundle

/-- The numbers `VAL_*`. -/
def code : ValType → ℤ
  | .plain .string => 0
  | .plain .integer => 1
  | .plain .long => 6
  | .plain .double => 8
  | .plain .boolean => 9
  | .plain .stringArray => 14
  | .plain .intArray => 18
  | .plain .longArray => 19
  | .plain .booleanArray => 23
  | .persistableBundle => 25
  | .plain .doubleArray => 28

/-- The typed maps in the order in which they are counted, searched and written. -/
def all : List ValType :=
  [.plain .boolean, .plain .integer, .plain .long, .plain .double, .plain .string, .plain .booleanArray,
    .plain .intArray, .plain .longArray, .plain .doubleArray, .plain .stringArray, .persistableBundle]

theorem mem_all (t : ValType) : t ∈ all := by
  cases t with
  | plain t => cases t <;> decide
  | persistableBundle => decide

theorem nodup_all : all.Nodup := by decide

theorem code_injective {t t' : ValType} (h : t.code = t'.code) : t = t' := by
  have hall : ∀ t ∈ all, ∀ t' ∈ all, t.code = t'.code → t = t' := by decide
  exact hall t (mem_all t) t' (mem_all t') h

end ValType

namespace PersistableBundle

variable {b : PersistableBundle} {t t' : ValType} {key k : String16}

def entries (b : PersistableBundle) : (t : ValType) → List (String16 × t.Val)
  | .plain .boolean => b.mBoolMap
  | .plain .integer => b.mIntMap
  | .plain .long => b.mLongMap
  | .plain .double => b.mDoubleMap
  | .plain .string => b.mStringMap
  | .plain .booleanArray => b.mBoolVectorMap
  | .plain .intArray => b.mIntVectorMap
  | .plain .longArray => b.mLongVectorMap
  | .plain .doubleArray => b.mDoubleVectorMap
  | .plain .stringArray => b.mStringVectorMap
  | .persistableBundle => b.mPersistableBundleMap

def withEntries (b : PersistableBundle) : (t : ValType) → List (String16 × t.Val) → PersistableBundle
  | .plain .boolean, m => { b with mBoolMap := m }
  | .plain .integer, m => { b with mIntMap := m }
  | .plain .long, m => { b with mLongMap := m }
  | .plain .double, m => { b with mDoubleMap := m }
  | .plain .string, m => { b with mStringMap := m }
  | .plain .booleanArray, m => { b with mBoolVectorMap := m }
  | .plain .intArray, m => { b with mIntVectorMap := m }
  | .plain .longArray, m => { b with mLongVectorMap := m }
  | .plain .doubleArray, m => { b with mDoubleVectorMap := m }
  | .plain .stringArray, m => { b with mStringVectorMap := m }
  | .persistableBundle, m => { b with mPersistableBundleMap := m }

@[simp] theorem entries_withEntries (b : PersistableBundle) (t : ValType) (m : List (String16 × t.Val)) :
    (b.withEntries t m).entries t = m := by
  cases t with
  | plain t => cases t <;> rfl
  | persistableBundle => rfl

theorem entries_withEntries_ne (h : t' ≠ t) (m : List (String16 × t.Val)) :
    (b.withEntries t m).entries t' = b.entries t' := by
  cases t with
  | plain t =>
    cases t' with
    | plain t' => cases t <;> cases t' <;> first | rfl | exact absurd rfl h
    | persistableBundle => cases t <;> rfl
  | persistableBundle =>
    cases t' with
    | plain t' => cases t' <;> rfl
    | persistableBundle => exact absurd rfl h

@[simp] theorem entries_empty (t : ValType) : ({} : PersistableBundle).entries t = [] := by
  cases t with
  | plain t => cases t <;> rfl
  | persistableBundle => rfl

theorem ext_entries {b b' : PersistableBundle} (h : ∀ t, b.entries t = b'.entries t) : b = b' := by
  cases b
  cases b'
  congr
  · exact h (.plain .boolean)
  · exact h (.plain .integer)
  · exact h (.plain .long)
  · exact h (.plain .double)
  · exact h (.plain .string)
  · exact h (.plain .booleanArray)
  · exact h (.plain .intArray)
  · exact h (.plain .longArray)
  · exact h (.plain .doubleArray)
  · exact h (.plain .stringArray)
  · exact h .persistableBundle

/-! ### Counting, searching and changing -/

def keys (b : PersistableBundle) (t : ValType) : List String16 := (b.entries t).map Prod.fst

def size (b : PersistableBundle) : ℕ := (ValType.all.map fun t => (b.entries t).length).sum

def empty (b : PersistableBundle) : Bool := b.size == 0

/-- `erase` in the maps of `ts`: it stops at the first one with the key. -/
def eraseIn (key : String16) : List ValType → PersistableBundle → ℕ × PersistableBundle
  | [], b => (0, b)
  | t :: ts, b =>
    if key ∈ b.keys t then (1, b.withEntries t (OrdMap.eraseEntry key (b.entries t))) else eraseIn key ts b

def erase (key : String16) (b : PersistableBundle) : ℕ × PersistableBundle := eraseIn key ValType.all b

def put (t : ValType) (key : String16) (v : t.Val) (b : PersistableBundle) : PersistableBundle :=
  let b := (b.erase key).2
  b.withEntries t (assign (b.entries t) key v)

def get (t : ValType) (key : String16) (b : PersistableBundle) : Option t.Val := OrdMap.lookup key (b.entries t)

def putBoolean : String16 → Bool → PersistableBundle → PersistableBundle := put (.plain .boolean)
def putInt : String16 → BitVec 32 → PersistableBundle → PersistableBundle := put (.plain .integer)
def putLong : String16 → BitVec 64 → PersistableBundle → PersistableBundle := put (.plain .long)
def putDouble : String16 → BitVec 64 → PersistableBundle → PersistableBundle := put (.plain .double)
def putString : String16 → String16 → PersistableBundle → PersistableBundle := put (.plain .string)
def putBooleanVector : String16 → List Bool → PersistableBundle → PersistableBundle := put (.plain .booleanArray)
def putIntVector : String16 → List (BitVec 32) → PersistableBundle → PersistableBundle := put (.plain .intArray)
def putLongVector : String16 → List (BitVec 64) → PersistableBundle → PersistableBundle := put (.plain .longArray)
def putDoubleVector : String16 → List (BitVec 64) → PersistableBundle → PersistableBundle := put (.plain .doubleArray)
def putStringVector : String16 → List String16 → PersistableBundle → PersistableBundle := put (.plain .stringArray)
def putPersistableBundle : String16 → PersistableBundle → PersistableBundle → PersistableBundle :=
  put .persistableBundle

def getBoolean : String16 → PersistableBundle → Option Bool := get (.plain .boolean)
def getInt : String16 → PersistableBundle → Option (BitVec 32) := get (.plain .integer)
def getLong : String16 → PersistableBundle → Option (BitVec 64) := get (.plain .long)
def getDouble : String16 → PersistableBundle → Option (BitVec 64) := get (.plain .double)
def getString : String16 → PersistableBundle → Option String16 := get (.plain .string)
def getBooleanVector : String16 → PersistableBundle → Option (List Bool) := get (.plain .booleanArray)
def getIntVector : String16 → PersistableBundle → Option (List (BitVec 32)) := get (.plain .intArray)
def getLongVector : String16 → PersistableBundle → Option (List (BitVec 64)) := get (.plain .longArray)
def getDoubleVector : String16 → PersistableBundle → Option (List (BitVec 64)) := get (.plain .doubleArray)
def getStringVector : String16 → PersistableBundle → Option (List String16) := get (.plain .stringArray)
def getPersistableBundle : String16 → PersistableBundle → Option PersistableBundle := get .persistableBundle

end PersistableBundle

end Binder.Parcel
