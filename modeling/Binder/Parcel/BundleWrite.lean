import Binder.Parcel.Composite
import Binder.Parcel.BundleKeys

/-! The writer of `PersistableBundle`, and the blocks that it writes. -/
namespace Binder.Parcel
open Binder.Lib Fallible

abbrev Write := Fallible Parcel Status Unit

/-- `RETURN_IF_FAILED`. -/
def attempt (write : Parcel → Status × Parcel) : Write := .ofFun fun p => match write p with
  | (.ok, q) => (.ok (), q)
  | (status, q) => (.error status, q)

def PlainType.all : List PlainType :=
  [.boolean, .integer, .long, .double, .string, .booleanArray, .intArray, .longArray, .doubleArray, .stringArray]

theorem ValType.all_eq : ValType.all = PlainType.all.map .plain ++ [.persistableBundle] := rfl

namespace PersistableBundle

/-- One pass of a loop of `writeToParcelInner`. -/
def writeEntry (env : Env) (t : ValType) (key : String16) (writeValue : Write) : Write := do
  attempt (writeString16 env key)
  attempt (writeInt32 env (.ofInt 32 t.code))
  writeValue

/-- `writeBundles` is the last loop, over the nested bundles. -/
def writeToParcelInner (env : Env) (b : PersistableBundle) (writeBundles : Write) : Write :=
  if b.size > int32Max then throw .badValue
  else do
    attempt (writeInt32 env (.ofNat 32 b.size))
    PlainType.all.forM fun t => (b.entries (.plain t)).forM fun e =>
      writeEntry env (.plain t) e.1 (attempt (writeData noUtf noParcelable env t.ty e.2))
    writeBundles

/-- A bundle that is not empty: the length is written over a placeholder when it is known. -/
def writeSized (env : Env) (writeInner : Write) : Write := do
  let lengthPos ← dataPosition
  attempt (writeInt32 env 1)
  attempt (writeInt32 env bundleMagicNative)
  let startPos ← dataPosition
  writeInner
  let endPos ← dataPosition
  rewind lengthPos
  let length := (endPos + 2 ^ 64 - startPos) % 2 ^ 64
  if length > int32Max then throw .badValue
  else do
    attempt (writeInt32 env (.ofNat 32 length))
    rewind endPos

mutual

def writeToParcel (env : Env) : PersistableBundle → Write
  | ⟨bools, ints, longs, doubles, strings, boolVectors, intVectors, longVectors, doubleVectors, stringVectors,
      bundles⟩ =>
    let b : PersistableBundle := ⟨bools, ints, longs, doubles, strings, boolVectors, intVectors, longVectors,
      doubleVectors, stringVectors, bundles⟩
    if b.empty then attempt (writeInt32 env 0)
    else writeSized env (writeToParcelInner env b (writeBundles env bundles))

def writeBundles (env : Env) : List (String16 × PersistableBundle) → Write
  | [] => pure ()
  | (key, v) :: es => do
    writeEntry env .persistableBundle key (writeToParcel env v)
    writeBundles env es

end

end PersistableBundle

/-! ### What is to be stored -/

section

variable {p q : Parcel} {env : Env} {e : Bool} {cs : List (List UInt8)}

theorem returns_attempt {write : Parcel → Status × Parcel} {u : Unit} :
    Returns (attempt write) p u q ↔ write p = (.ok, q) := by
  unfold attempt
  rw [returns_ofFun]
  cases write p with
  | mk status => cases status <;> simp

theorem returns_writeSized {inner : Write} : Returns (PersistableBundle.writeSized env inner) p () q ↔
    ∃ p₁ p₂ p₃ p₄ p₅, writeInt32 env 1 p = (.ok, p₁) ∧ writeInt32 env bundleMagicNative p₁ = (.ok, p₂) ∧
      Returns inner p₂ () p₃ ∧ setDataPosition p.mDataPos p₃ = some p₄ ∧
      (p₃.mDataPos + 2 ^ 64 - p₂.mDataPos) % 2 ^ 64 ≤ int32Max ∧
      writeInt32 env (.ofNat 32 ((p₃.mDataPos + 2 ^ 64 - p₂.mDataPos) % 2 ^ 64)) p₄ = (.ok, p₅) ∧
      setDataPosition p₃.mDataPos p₅ = some q := by
  unfold PersistableBundle.writeSized
  simp only [returns_bind, returns_dataPosition, returns_attempt, returns_rewind, and_assoc, exists_and_left,
    exists_eq_left, returns_ite, not_returns_throw, and_false, false_or, not_lt]
  constructor
  · rintro ⟨⟨⟩, p₁, h₁, ⟨⟩, p₂, h₂, ⟨⟩, p₃, h₃, ⟨⟩, p₄, h₄, hlen, ⟨⟩, p₅, h₅, h₆⟩
    exact ⟨p₁, h₁, p₂, h₂, p₃, h₃, p₄, h₄, hlen, p₅, h₅, h₆⟩
  · rintro ⟨p₁, h₁, p₂, h₂, p₃, h₃, p₄, h₄, hlen, p₅, h₅, h₆⟩
    exact ⟨(), p₁, h₁, (), p₂, h₂, (), p₃, h₃, (), p₄, h₄, hlen, (), p₅, h₅, h₆⟩

theorem writeInt32_placed {v : BitVec 32} (h : Within e p) (hw : writeInt32 env v p = (.ok, q)) :
    Tracks e env [wordBytes v] p q ∧ Placed (wordBytes v) p q := by
  have htracks : Tracks e env _ p _ := writeInt32_tracks v h
  rw [hw] at htracks
  have hplaced := (htracks.stands (writeInt32_takes h hw)).placed
  rw [List.flatten_singleton] at hplaced
  exact ⟨htracks, hplaced⟩

/-- The words in front are reported if they are left out, so the length always comes to stand before the magic number.
It is that of the blocks if none of them is left out. -/
theorem writeSized_tracks {inner : Write} (hp : Within e p)
    (hinner : ∀ p q, Within e p → Returns inner p () q → Tracks e env cs p q)
    (hrun : Returns (PersistableBundle.writeSized env inner) p () q) :
    Tracks e env (wordBytes (.ofNat 32 cs.flatten.length) :: wordBytes bundleMagicNative :: cs) p q ∧
      q.bytesAt p.mDataPos 8 =
        wordBytes (.ofNat 32 (q.mDataPos - (p.mDataPos + 8))) ++ wordBytes bundleMagicNative := by
  obtain ⟨p₁, p₂, p₃, p₄, p₅, h₁, h₂, h₃, h₄, hmax, h₅, h₆⟩ := returns_writeSized.mp hrun
  obtain ⟨hone, hone'⟩ := writeInt32_placed hp h₁
  obtain ⟨hmagic, hmagic'⟩ := writeInt32_placed hone.within h₂
  have hbody := hinner p₂ p₃ hmagic.within h₃
  have hhead : Placed (wordBytes 1 ++ wordBytes bundleMagicNative) p p₂ := hone'.append hmagic' hmagic.spared
  have hword (w : BitVec 32) : (wordBytes w).length = 4 := length_wordBytes w
  have hlen : (wordBytes 1 ++ wordBytes bundleMagicNative).length = 8 := by
    rw [List.length_append, hword, hword]
  have hstart : p₂.mDataPos = p.mDataPos + 8 := by rw [hhead.pos, hlen]
  -- the head as it stands when the body is written
  let r : Parcel := { p₃ with mDataPos := p₂.mDataPos }
  have hhead : Placed (wordBytes 1 ++ wordBytes bundleMagicNative) p r := by
    refine ⟨hhead.pos, fun i hi => ?_⟩
    obtain ⟨hbyte, hin⟩ := hhead.bytes i hi
    exact hbody.spared _ (by omega) _ hbyte hin
  obtain ⟨hbyte, hin, hblock⟩ := hhead.bytes 3 (by omega)
  have hdata : p₃.mData.isSome := isSome_of_byteAt hbyte
  obtain ⟨-, hre⟩ : _ ∧ ∀ q, setDataPosition p₃.mDataPos (writeInt32 env _ p₄).2 = some q → _ :=
    reworded hdata hin (hblock hdata) h₄
  have hre := hre q (by rw [h₅]; exact h₆)
  have hge := hbody.ge
  have hend := (setDataPosition_eq_some.mp h₆).1
  have hmax' : int32Max = 2 ^ 31 - 1 := rfl
  have hlength : (p₃.mDataPos + 2 ^ 64 - p₂.mDataPos) % 2 ^ 64 = p₃.mDataPos - p₂.mDataPos := by omega
  rw [hlength] at hre
  constructor
  · refine (hone.trans (hmagic.trans hbody)).reworded hre fun htakes => ?_
    have hpos := ((hone.trans (hmagic.trans hbody)).stands htakes).placed.pos
    simp only [List.singleton_append, List.flatten_cons, List.length_append, hword] at hpos
    exact congrArg (BitVec.ofNat 32) (by omega)
  · have hre' : Reworded p.mDataPos (.ofNat 32 (p₃.mDataPos - p₂.mDataPos)) r { q with mDataPos := p₂.mDataPos } :=
      ⟨hre.source, hre.kept, hre.size, hre.capacity, rfl, hre.objects, hre.owner⟩
    have hplaced := hhead.reworded hre'
    have hne (w : BitVec 32) : wordBytes w ++ wordBytes bundleMagicNative ≠ [] :=
      List.ne_nil_of_length_pos (by rw [List.length_append, hword]; omega)
    have hback : Follows p { q with mDataPos := p₂.mDataPos } { q with mDataPos := p.mDataPos } :=
      ⟨rfl, fun _ _ _ => rfl, hplaced.le_size (hne _)⟩
    have hbytes := (hplaced.holds (hne _) hback).bytesAt
    rw [List.length_append, hword, hword] at hbytes
    rw [hre.pos, ← hstart]
    exact hbytes

/-- A write that can abort, with the blocks that it is made of. -/
structure Task where
  run : Env → Write
  blocks : List (List UInt8)
  tracks : ∀ {e env p q}, Within e p → Returns (run env) p () q → Tracks e env blocks p q

namespace Task

def plain (f : Env → Parcel → Status × Parcel) (cs : List (List UInt8)) (h : ∀ e env, Writes e env (f env) cs) :
    Task where
  run env := attempt (f env)
  blocks := cs
  tracks hp hrun := h _ _ _ _ hp (returns_attempt.mp hrun)

def word (v : BitVec 32) : Task := plain (writeInt32 · v) [wordBytes v] fun _ _ => writes_word v

def nothing : Task where
  run _ := pure ()
  blocks := []
  tracks hp hrun := by
    obtain ⟨-, rfl⟩ := returns_pure.mp hrun
    exact .refl hp

def seq (r s : Task) : Task where
  run env := do
    r.run env
    s.run env
  blocks := r.blocks ++ s.blocks
  tracks hp hrun := by
    obtain ⟨⟨⟩, q, hr, hs⟩ := returns_bind.mp hrun
    have hfirst := r.tracks hp hr
    exact hfirst.trans (s.tracks hfirst.within hs)

def each : List Task → Task
  | [] => nothing
  | r :: rs => r.seq (each rs)

/-- A task that is refused where `c` holds. -/
def guarded (c : Prop) [Decidable c] (r : Task) : Task where
  run env := if c then throw .badValue else r.run env
  blocks := r.blocks
  tracks hp hrun := r.tracks hp (returns_unless.mp hrun).2

/-- A placeholder, the magic number and what `r` writes; the length of the latter then replaces the placeholder. -/
def sized (r : Task) : Task where
  run env := PersistableBundle.writeSized env (r.run env)
  blocks := wordBytes (.ofNat 32 r.blocks.flatten.length) :: wordBytes bundleMagicNative :: r.blocks
  tracks hp hrun := (writeSized_tracks hp (fun _ _ => r.tracks) hrun).1

theorem run_each {α : Type} (f : α → Task) (as : List α) (env : Env) :
    (each (as.map f)).run env = as.forM fun a => (f a).run env := by
  induction as with
  | nil => rfl
  | cons a as ih => exact congrArg (fun rest => (f a).run env >>= fun _ => rest) ih

def bytes (r : Task) : List UInt8 := r.blocks.flatten

theorem bytes_word (v : BitVec 32) : (word v).bytes = wordBytes v := List.flatten_singleton ..

theorem bytes_guarded (c : Prop) [Decidable c] (r : Task) : (guarded c r).bytes = r.bytes := rfl

theorem bytes_seq (r s : Task) : (r.seq s).bytes = r.bytes ++ s.bytes := List.flatten_append

theorem bytes_each {α : Type} (f : α → Task) (as : List α) :
    (each (as.map f)).bytes = as.flatMap fun a => (f a).bytes := by
  induction as with
  | nil => rfl
  | cons a as ih =>
    rw [List.flatMap_cons, ← ih]
    exact bytes_seq _ _

theorem bytes_sized (r : Task) : r.sized.bytes =
    wordBytes (.ofNat 32 r.bytes.length) ++ (wordBytes bundleMagicNative ++ r.bytes) := rfl

end Task

end

namespace PersistableBundle

def entryTask (t : ValType) (key : String16) (value : Task) : Task :=
  (Task.plain (writeString16 · key) (stringChunks key) fun _ _ => writes_string16 key).seq
    ((Task.word (.ofInt 32 t.code)).seq value)

def plainChunks (t : PlainType) (v : t.Val) : List (List UInt8) := chunks noUtf (fun i => i.elim) t.ty v

def plainTask (t : PlainType) (v : t.Val) : Task :=
  .plain (writeData noUtf noParcelable · t.ty v) (plainChunks t v) fun _ _ =>
    writes_data noUtf (fun i => i.elim) t.ty v

/-- The loops over the values that are not bundles. -/
def plainsTask (b : PersistableBundle) : Task :=
  .each (PlainType.all.map fun t => .each ((b.entries (.plain t)).map fun e =>
    entryTask (.plain t) e.1 (plainTask t e.2)))

/-- `bundles` is the last loop. -/
def innerTask (b : PersistableBundle) (bundles : Task) : Task :=
  .guarded (b.size > int32Max) ((Task.word (.ofNat 32 b.size)).seq (b.plainsTask.seq bundles))

mutual

/-- What `writeToParcel` is to store. -/
def task : PersistableBundle → Task
  | ⟨bools, ints, longs, doubles, strings, boolVectors, intVectors, longVectors, doubleVectors, stringVectors,
      bundles⟩ =>
    let b : PersistableBundle := ⟨bools, ints, longs, doubles, strings, boolVectors, intVectors, longVectors,
      doubleVectors, stringVectors, bundles⟩
    if b.empty then .word 0
    else .sized (b.innerTask (bundlesTask bundles))

def bundlesTask : List (String16 × PersistableBundle) → Task
  | [] => .nothing
  | (key, v) :: es => (entryTask .persistableBundle key (task v)).seq (bundlesTask es)

end

theorem writeToParcel_eq (env : Env) (b : PersistableBundle) : b.writeToParcel env =
    if b.empty then attempt (writeInt32 env 0)
    else writeSized env (writeToParcelInner env b (writeBundles env b.mPersistableBundleMap)) := by
  cases b
  rfl

theorem task_eq (b : PersistableBundle) :
    b.task = if b.empty then .word 0 else .sized (b.innerTask (bundlesTask b.mPersistableBundleMap)) := by
  cases b
  rfl

theorem run_entryTask (env : Env) (t : ValType) (key : String16) (value : Task) :
    (entryTask t key value).run env = writeEntry env t key (value.run env) := rfl

theorem run_plainsTask (env : Env) (b : PersistableBundle) : b.plainsTask.run env =
    PlainType.all.forM fun t => (b.entries (.plain t)).forM fun e =>
      writeEntry env (.plain t) e.1 (attempt (writeData noUtf noParcelable env t.ty e.2)) := by
  unfold plainsTask
  simp only [Task.run_each, run_entryTask]
  rfl

/-- The task writes what `writeToParcelInner` does, once that is so for the nested bundles. -/
theorem run_task_of_bundles {env : Env} {b : PersistableBundle}
    (h : (bundlesTask b.mPersistableBundleMap).run env = writeBundles env b.mPersistableBundleMap) :
    b.task.run env = b.writeToParcel env := by
  rw [task_eq, writeToParcel_eq]
  split_ifs
  · rfl
  · unfold writeToParcelInner
    rw [← h, ← run_plainsTask]
    rfl

mutual

theorem run_task (env : Env) : ∀ b : PersistableBundle, b.task.run env = b.writeToParcel env
  | ⟨_, _, _, _, _, _, _, _, _, _, bundles⟩ => run_task_of_bundles (run_bundlesTask env bundles)

theorem run_bundlesTask (env : Env) : ∀ es, (bundlesTask es).run env = writeBundles env es
  | [] => rfl
  | (key, v) :: es => by
    have hentry := run_entryTask env .persistableBundle key v.task
    rw [run_task env v] at hentry
    unfold writeBundles
    rw [← hentry, ← run_bundlesTask env es]
    rfl

end

end PersistableBundle

end Binder.Parcel
