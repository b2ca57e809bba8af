import Binder.Parcel.PlainRead
import Binder.Parcel.Steps

/-! What the operations do to the table of objects of a parcel that owns its data. -/
namespace Binder.Parcel
open Binder.Lib List

variable {p q r : Parcel} {env : Env} {n : ℕ}

/-! ### Objects as bytes -/

namespace FlatBinderObject

variable {mem mem' : Memory} {off off' : ℕ}

theorem load_eq_append : mem.load off sizeofFlatBinderObject =
    mem.load off 4 ++ mem.load (off + 4) 4 ++ mem.load (off + 8) 8 ++ mem.load (off + 16) 8 := by
  change mem.load off (4 + 4 + 8 + 8) = _
  rw [Memory.load_add, Memory.load_add, Memory.load_add]

theorem leBytes_leNat_load (k : ℕ) : leBytes k (leNat (mem.load off k)) = mem.load off k := by
  have h := leBytes_leNat (mem.load off k)
  rwa [Memory.length_load] at h

theorem bytes_load : (load mem off).bytes = mem.load off sizeofFlatBinderObject := by
  rw [load_eq_append, bytes, load]
  simp only [leBytes_leNat_load]

theorem load_congr (h : mem.load off sizeofFlatBinderObject = mem'.load off' sizeofFlatBinderObject) :
    load mem off = load mem' off' := by
  rw [load_eq_append, load_eq_append] at h
  obtain ⟨h, hcookie⟩ := append_inj h (by simp)
  obtain ⟨h, hbinder⟩ := append_inj h (by simp)
  obtain ⟨htype, hflags⟩ := append_inj h (by simp)
  rw [load, load, htype, hflags, hbinder, hcookie]

@[simp] theorem length_bytes (obj : FlatBinderObject) : obj.bytes.length = sizeofFlatBinderObject := by
  simp [bytes, sizeofFlatBinderObject]

/-- What `appendFrom` makes of an object: a file descriptor is duplicated and then owned. -/
def adopted (env : Env) (obj : FlatBinderObject) : FlatBinderObject :=
  if obj.type = binderTypeFd then
    { obj with binder := obj.binder / 2 ^ 32 * 2 ^ 32 + env.dup obj.handle % 2 ^ 32, cookie := 1 }
  else obj

/-- The low half of a word is replaced. -/
theorem leBytes_low (v dup : ℕ) : leBytes 8 (v / 2 ^ 32 * 2 ^ 32 + dup % 2 ^ 32) =
    leBytes 4 dup ++ leBytes 4 (v / 2 ^ 32) := by
  have hlow : (v / 2 ^ 32 * 2 ^ 32 + dup % 2 ^ 32) % 256 ^ 4 = dup % 256 ^ 4 := by omega
  have hhigh : (v / 2 ^ 32 * 2 ^ 32 + dup % 2 ^ 32) / 256 ^ 4 = v / 2 ^ 32 := by omega
  rw [leBytes_add 4 4, hhigh, ← leBytes_mod, hlow, leBytes_mod]

/-- The two stores that `appendFrom` makes into a file descriptor. -/
theorem bytes_dup (dup : ℕ) : (Memory.memcpy (Memory.memcpy mem (off + 8) (.ofBytes (leBytes 4 dup)) 4) (off + 16)
      (.ofBytes (leBytes 8 1)) 8).load off sizeofFlatBinderObject =
    { load mem off with binder := (load mem off).binder / 2 ^ 32 * 2 ^ 32 + dup % 2 ^ 32, cookie := 1 }.bytes := by
  have hwritten (bs : List UInt8) (m : Memory) (o : ℕ) : (Memory.memcpy m o (.ofBytes bs) bs.length).load o bs.length = bs := by
    rw [Memory.load_memcpy, Memory.load_ofBytes]
  have hfd := hwritten (leBytes 4 dup) mem (off + 8)
  have hcookie := hwritten (leBytes 8 1) (Memory.memcpy mem (off + 8) (.ofBytes (leBytes 4 dup)) 4) (off + 16)
  rw [length_leBytes] at hfd hcookie
  -- the upper half of the word that holds the descriptor stays
  have hhigh : leBytes 4 (leNat (mem.load (off + 8) 8) / 2 ^ 32) = mem.load (off + 12) 4 := by
    have hword := @leBytes_leNat_load mem (off + 8) 8
    rw [leBytes_add 4 4, Memory.load_add (m := 4) (n := 4)] at hword
    exact (append_inj hword (by simp)).2
  rw [load_eq_append, bytes, load]
  rw [leBytes_low, leBytes_leNat_load, leBytes_leNat_load, hhigh, hcookie,
    Memory.load_memcpy_of_disjoint (by omega), Memory.load_memcpy_of_disjoint (by omega),
    Memory.load_memcpy_of_disjoint (by omega), Memory.load_memcpy_of_disjoint (by omega),
    Memory.load_memcpy_of_disjoint (by omega), Memory.load_add (m := 4) (n := 4), hfd,
    Memory.load_memcpy_of_disjoint (by omega)]

end FlatBinderObject

/-! ### Layout -/

def Apart (a b : ℕ) : Prop := a + sizeofFlatBinderObject ≤ b ∨ b + sizeofFlatBinderObject ≤ a
deriving Decidable

theorem Apart.symm {a b : ℕ} (h : Apart a b) : Apart b a := Or.symm h

/-- A parcel that owns its data, with its objects inside the data and apart from each other. -/
structure Laid (p : Parcel) : Prop where
  own : p.mOwner = false
  size : p.mDataSize ≤ p.mDataCapacity
  capacity : p.mDataCapacity ≤ int32Max
  pos : p.mDataPos ≤ int32Max + 3
  null : p.mData = none → p.mDataCapacity = 0
  inside : ∀ o ∈ p.mObjects, o + sizeofFlatBinderObject ≤ p.mDataSize
  apart : p.mObjects.Pairwise Apart

theorem Laid.init (es : List Event) : Laid { events := es } :=
  ⟨rfl, le_rfl, Nat.zero_le _, Nat.zero_le _, fun _ => rfl, by simp, .nil⟩

theorem Laid.empty_of_null (h : Laid p) (hnull : p.mData = none) : p.mDataSize = 0 ∧ p.mObjects = [] := by
  have hzero : p.mDataSize = 0 := by
    have hsize := h.size
    have hcap := h.null hnull
    omega
  refine ⟨hzero, eq_nil_iff_forall_not_mem.mpr fun o ho => ?_⟩
  have hin := h.inside o ho
  have hpos : 0 < sizeofFlatBinderObject := by decide
  omega

variable {o size len pos offset : ℕ} {es : List Event} {st : Status} {val : FlatBinderObject} {nullMetaData : Bool}
    {kept : List ℕ} {buffer : Memory} {src : Parcel}

theorem Laid.data_of_mem (h : Laid p) (ho : o ∈ p.mObjects) : ∃ mem, p.mData = some mem := by
  cases hdata : p.mData with
  | some mem => exact ⟨mem, rfl⟩
  | none =>
    rw [(h.empty_of_null hdata).2] at ho
    cases ho

/-! ### Changes -/

def releases (es : List Event) : List FlatBinderObject :=
  es.filterMap fun
    | .release obj => some obj
    | _ => none

def acquires (es : List Event) : List FlatBinderObject :=
  es.filterMap fun
    | .acquire obj => some obj
    | _ => none

/-- An object that stands for a reference to a binder. -/
def FlatBinderObject.IsRef (obj : FlatBinderObject) : Prop := obj.type ≠ binderTypeFd
deriving Decidable

theorem releases_append (es fs : List Event) : releases (es ++ fs) = releases es ++ releases fs := filterMap_append

theorem acquires_append (es fs : List Event) : acquires (es ++ fs) = acquires es ++ acquires fs := filterMap_append

def Silent (es : List Event) : Prop := releases es = [] ∧ acquires es = []

/-- The objects that stay have the bytes they had. The objects at `dropped` are released, and those of
`new` are put where it says. -/
structure Changed (p : Parcel) (dropped : List ℕ) (new : List (ℕ × FlatBinderObject)) (q : Parcel) : Prop where
  laid : Laid q
  table : ∃ kept, p.mObjects.Perm (kept ++ dropped) ∧ q.mObjects.Perm (kept ++ new.map Prod.fst) ∧
    ∀ o ∈ kept, q.bytesAt o sizeofFlatBinderObject = p.bytesAt o sizeofFlatBinderObject
  placed : ∀ e ∈ new, q.bytesAt e.1 sizeofFlatBinderObject = e.2.bytes
  events : ∃ es, q.events = es ++ p.events ∧ (releases es).Perm (p.objectsAt dropped) ∧
    ((acquires es).filter (·.IsRef)).Perm ((new.map Prod.snd).filter (·.IsRef))

theorem objectsAt_nil (p : Parcel) : p.objectsAt [] = [] := by
  unfold objectsAt
  cases p.mData <;> rfl

/-- Nothing is dropped and nothing is added. -/
theorem Changed.quiet (hlaid : Laid q) (hobj : q.mObjects.Perm p.mObjects)
    (hbytes : ∀ o ∈ p.mObjects, q.bytesAt o sizeofFlatBinderObject = p.bytesAt o sizeofFlatBinderObject)
    (hevents : q.events = es ++ p.events) (hes : Silent es) : Changed p [] [] q where
  laid := hlaid
  table := ⟨p.mObjects, by simp, by simpa using hobj, hbytes⟩
  placed := by simp
  events := by
    refine ⟨es, hevents, ?_, ?_⟩
    · rw [hes.1, objectsAt_nil]
    · simp [hes.2]

theorem Changed.refl (h : Laid p) : Changed p [] [] p :=
  .quiet h (.refl _) (fun _ _ => rfl) (nil_append _).symm ⟨rfl, rfl⟩

theorem silent_of_stores (h : ∀ e ∈ es, ∃ off len block, e = .store off len block) : Silent es := by
  constructor
  · refine filterMap_eq_nil_iff.mpr fun e he => ?_
    obtain ⟨off, len, block, rfl⟩ := h e he
    rfl
  · refine filterMap_eq_nil_iff.mpr fun e he => ?_
    obtain ⟨off, len, block, rfl⟩ := h e he
    rfl

theorem Silent.append {fs : List Event} (h₁ : Silent es) (h₂ : Silent fs) : Silent (es ++ fs) := by
  constructor
  · rw [releases_append, h₁.1, h₂.1, nil_append]
  · rw [acquires_append, h₁.2, h₂.2, nil_append]

theorem silent_moveStores (zero : Bool) (old new : ℕ) : Silent (moveStores zero old new) := by
  refine silent_of_stores fun e he => ?_
  unfold moveStores at he
  split_ifs at he
  · rcases mem_cons.mp he with rfl | he
    · exact ⟨_, _, _, rfl⟩
    · exact ⟨_, _, _, mem_singleton.mp he⟩
  · cases he

theorem bytesAt_map {f : Memory → Memory} {k : ℕ} (hdata : q.mData = p.mData.map f)
    (hf : ∀ mem i, o ≤ i → i < o + k → f mem i = mem i) : q.bytesAt o k = p.bytesAt o k := by
  unfold bytesAt
  rw [hdata]
  cases p.mData with
  | none => rfl
  | some mem =>
    refine Memory.load_congr fun i hi => ?_
    exact hf mem (o + i) (Nat.le_add_right _ _) (by omega)

/-! ### Room -/

/-- `r` is `p` with room for `n` bytes at its position. -/
structure Extended (p : Parcel) (n : ℕ) (r : Parcel) : Prop where
  laid : Laid r
  objects : r.mObjects = p.mObjects
  size : r.mDataSize = p.mDataSize
  bytes : ∀ o ∈ p.mObjects, r.bytesAt o sizeofFlatBinderObject = p.bytesAt o sizeofFlatBinderObject
  clear : ∀ m, p.Clear m → r.Clear m
  fits : r.mDataPos + n ≤ r.mDataCapacity
  events : ∃ es, r.events = es ++ p.events ∧ Silent es

theorem Laid.extended (h : Laid p) (hn : n ≤ int32Max + 3) (hroom : p.mData = none ∨ p.Room n)
    (hr : Roomed env n p .ok r) : Extended p n r := by
  have hsize := h.size
  have hcap := h.capacity
  have hpos := h.pos
  have hmax : int32Max = 2 ^ 31 - 1 := rfl
  have hwant : n ≤ p.wanted n ∧ p.mDataSize ≤ p.wanted n := by
    unfold wanted
    omega
  cases hr with
  | fits hfits =>
    rw [Nat.mod_eq_of_lt (by omega)] at hfits
    exact ⟨h, rfl, rfl, fun _ _ => rfl, fun _ => id, hfits, [], rfl, rfl, rfl⟩
  | refused hne => exact absurd rfl hne
  | enlarged henl =>
    cases henl with
    | taken _ hown =>
      rw [h.own] at hown
      cases hown
    | first _ hown hnone hle hdata =>
      obtain ⟨hzero, hnil⟩ := h.empty_of_null hnone
      have hempty {o : ℕ} (ho : o ∈ p.mObjects) : False := by
        rw [hnil] at ho
        cases ho
      refine ⟨⟨hown, Nat.zero_le _, hle, Nat.zero_le _, ?_, fun o ho => (hempty ho).elim, h.apart⟩, rfl, hzero.symm,
        fun o ho => (hempty ho).elim, fun _ _ o ho => (hempty ho).elim, ?_, [], rfl, rfl, rfl⟩
      · intro hdata
        cases hdata
      · dsimp only
        omega
    | moved mem fresh hown hmem hle hlt =>
      have hsome : p.mData ≠ none := by simp [hmem]
      have hfits : p.mDataPos + n ≤ p.wanted n := by
        have hr := hroom.resolve_left hsome
        unfold Room at hr
        omega
      refine ⟨⟨hown, ?_, hle, hpos, ?_, h.inside, h.apart⟩, rfl, rfl, fun o ho => ?_, fun _ => id, hfits, _, rfl,
        silent_moveStores _ _ _⟩
      · exact hsize.trans hlt.le
      · intro hnone
        cases hnone
      · have hin := h.inside o ho
        refine bytesAt_map (f := fun mem => Memory.memcpy fresh 0 mem p.mDataCapacity) ?_ fun m i h₁ h₂ => ?_
        · simp [hmem]
        · exact if_pos ⟨Nat.zero_le _, by omega⟩
    | clamped hown hdata =>
      rw [Option.isSome_iff_ne_none] at hdata
      have hfits : min p.mDataPos (p.wanted n) + n ≤ p.mDataCapacity := by
        have hr := hroom.resolve_left hdata
        unfold Room at hr
        omega
      refine ⟨⟨hown, hsize, hcap, ?_, h.null, h.inside, h.apart⟩, rfl, rfl, fun _ _ => rfl, fun m hclear o ho => ?_, hfits,
        [], rfl, rfl, rfl⟩
      · exact (Nat.min_le_left _ _).trans hpos
      · -- a position that moves back stays behind the data
        have hin := h.inside o ho
        have hc := hclear o ho
        dsimp only
        omega

theorem Laid.stayed (h : Laid p) (hr : Roomed env n p st r) (hst : st ≠ .ok) : Changed p [] [] r := by
  cases hr with
  | refused => exact .refl h
  | failed => exact .quiet { h with } (.refl _) (fun _ _ => rfl) (nil_append _).symm ⟨rfl, rfl⟩
  | fits | enlarged => exact absurd rfl hst

/-! ### Writes -/

/-- The `n` bytes at the position overlap no object, or nothing can be written. -/
def Spares (p : Parcel) (n : ℕ) : Prop := n = 0 ∨ int32Max < n ∨ p.Clear n
deriving Decidable

/-- What a write of `n` bytes needs: it overlaps no object and finds its room. -/
def WriteKeeps (p : Parcel) (n : ℕ) : Prop := p.Spares n ∧ (p.mData = none ∨ p.Room n)
deriving Decidable

instance (p : Parcel) : Decidable (p.mData = none) := decidable_of_iff _ Option.isNone_iff_eq_none

theorem Spares.clear (h : p.Spares sizeofFlatBinderObject) : p.Clear sizeofFlatBinderObject := by
  rcases h with h | h | h
  · exact absurd h (by decide)
  · exact absurd h (by decide)
  · exact h

theorem Extended.stored {adv : Bool} (h : Extended p n r) (hspares : p.Spares n) (hs : Stored r n adv q) :
    Changed p [] [] q := by
  obtain ⟨es₁, hev, hes₁⟩ := h.events
  obtain ⟨f, es, rfl, hf, hes⟩ := hs
  have hl := h.laid
  have hfits := h.fits
  have hcap := hl.capacity
  have hsize := hl.size
  refine .quiet ⟨hl.own, ?_, hcap, ?_, ?_, ?_, hl.apart⟩ ?_ ?_ (?_ : _ = (es ++ es₁) ++ p.events) ?_
  · dsimp only
    split <;> omega
  · have hpos := hl.pos
    dsimp only
    split <;> omega
  · intro hnone
    exact hl.null (by simpa using hnone)
  · intro o ho
    have hin := hl.inside o ho
    dsimp only
    split <;> omega
  · rw [← h.objects]
  · intro o ho
    rw [← h.bytes o ho]
    refine bytesAt_map rfl fun mem i h₁ h₂ => hf mem i ?_
    rcases hspares with hzero | hbig | hclear
    · omega
    · omega
    · have hc := h.clear _ hclear o (h.objects ▸ ho)
      omega
  · dsimp only
    rw [hev, append_assoc]
  · have hsilent : Silent es := silent_of_stores fun e he => by
      obtain ⟨off, len, rfl, -⟩ := hes e he
      exact ⟨off, len, _, rfl⟩
    exact hsilent.append hes₁

theorem Laid.written (h : Laid p) (hkeeps : p.WriteKeeps n) (hw : PlainWritten env n p q) : Changed p [] [] q := by
  cases hw with
  | rejected => exact .refl h
  | stayed hr hst => exact h.stayed hr hst
  | stored _ hn hr hs => exact (h.extended hn hkeeps.2 hr).stored hkeeps.1 hs

/-- The new entries of the table with the objects they stand for. -/
def added (p q : Parcel) (objs : List FlatBinderObject) : List (ℕ × FlatBinderObject) :=
  (q.mObjects.drop p.mObjects.length).zip objs

theorem added_eq_nil {objs : List FlatBinderObject} (h : q.mObjects.length ≤ p.mObjects.length) :
    added p q objs = [] := by
  unfold added
  rw [drop_eq_nil_of_le h, zip_nil_left]

theorem Changed.nothing_added (h : Changed p [] [] q) (objs : List FlatBinderObject) :
    Changed p [] (added p q objs) q := by
  obtain ⟨kept, h₁, h₂, -⟩ := h.table
  have hlen : q.mObjects.length ≤ p.mObjects.length := by
    rw [h₁.length_eq, h₂.length_eq]
    simp
  rwa [added_eq_nil hlen]

/-- Only a successful `writeObject` records its object. -/
theorem ObjectWritten.added (hw : ObjectWritten env val nullMetaData p st q) : (added p q [val]).map Prod.snd =
      if st = .ok ∧ (nullMetaData = true ∨ val.binder ≠ 0) then [val] else [] := by
  have hnil {q : Parcel} (hobj : q.mObjects = p.mObjects) : (Parcel.added p q [val]).map Prod.snd = [] := by
    rw [added_eq_nil (le_of_eq (congrArg List.length hobj))]
    rfl
  cases hw with
  | stayed hr hst => exact (hnil hr.objects).trans (if_neg fun h => hst h.1).symm
  | noTable hr | banned _ hr => exact (hnil hr.objects).trans (if_neg (by simp)).symm
  | placed capacity hr =>
    rename_i r
    by_cases hlisted : nullMetaData = true ∨ val.binder ≠ 0
    · have hnew : (placeObject val nullMetaData capacity r).mObjects = p.mObjects ++ [r.mDataPos] := by
        rw [← hr.objects]
        exact if_pos hlisted
      rw [if_pos ⟨rfl, hlisted⟩, Parcel.added, hnew, drop_left]
      rfl
    · have hnew : (placeObject val nullMetaData capacity r).mObjects = p.mObjects := by
        rw [← hr.objects]
        exact if_neg hlisted
      exact (hnil hnew).trans (if_neg fun h => hlisted h.2).symm

theorem bytesAt_memcpy {obj : FlatBinderObject} (hsome : p.mData ≠ none)
    (hdata : q.mData = p.mData.map fun mem => Memory.memcpy mem o (.ofBytes obj.bytes) sizeofFlatBinderObject) :
    q.bytesAt o sizeofFlatBinderObject = obj.bytes := by
  obtain ⟨mem, hmem⟩ := Option.ne_none_iff_exists'.mp hsome
  unfold bytesAt
  rw [hdata, hmem, Option.map_some, Option.elim_some, Memory.load_memcpy]
  have h := @Memory.load_ofBytes obj.bytes
  rwa [FlatBinderObject.length_bytes] at h

theorem Laid.placed (val : FlatBinderObject) (nullMetaData : Bool) (capacity : ℕ) (h : Laid r)
    (hfits : r.mDataPos + sizeofFlatBinderObject ≤ r.mDataCapacity) (hclear : r.Clear sizeofFlatBinderObject) :
    Laid (placeObject val nullMetaData capacity r) where
  own := h.own
  size := Nat.max_le.mpr ⟨h.size, hfits⟩
  capacity := h.capacity
  pos := by
    have hcap := h.capacity
    change r.mDataPos + sizeofFlatBinderObject ≤ int32Max + 3
    omega
  null hnone := h.null (by simpa [placeObject] using hnone)
  inside := by
    intro o ho
    change o ∈ (if nullMetaData = true ∨ val.binder ≠ 0 then r.mObjects ++ [r.mDataPos] else r.mObjects) at ho
    have hold (ho : o ∈ r.mObjects) := (h.inside o ho).trans (Nat.le_max_left _ (r.mDataPos + sizeofFlatBinderObject))
    split_ifs at ho
    · rcases mem_append.mp ho with ho | ho
      · exact hold ho
      · rw [mem_singleton.mp ho]
        exact Nat.le_max_right _ _
    · exact hold ho
  apart := by
    change (if nullMetaData = true ∨ val.binder ≠ 0 then r.mObjects ++ [r.mDataPos] else r.mObjects).Pairwise Apart
    split_ifs
    · refine pairwise_append.mpr ⟨h.apart, pairwise_singleton _ _, fun o ho x hx => ?_⟩
      rw [mem_singleton.mp hx]
      exact hclear o ho
    · exact h.apart

theorem Extended.placed (val : FlatBinderObject) (nullMetaData : Bool) (capacity : ℕ)
    (h : Extended p sizeofFlatBinderObject r) (hclear : p.Clear sizeofFlatBinderObject) :
    Changed p [] (added p (placeObject val nullMetaData capacity r) [val]) (placeObject val nullMetaData capacity r) := by
  obtain ⟨es, hev, hes⟩ := h.events
  have hl := h.laid.placed val nullMetaData capacity h.fits (h.clear _ hclear)
  have hsome : r.mData ≠ none := by
    intro hnone
    have hzero := h.laid.null hnone
    have hfits := h.fits
    have hpositive : 0 < sizeofFlatBinderObject := by decide
    omega
  have hkept : ∀ o ∈ p.mObjects, (placeObject val nullMetaData capacity r).bytesAt o sizeofFlatBinderObject =
      p.bytesAt o sizeofFlatBinderObject := by
    intro o ho
    have hc := h.clear _ hclear o (h.objects ▸ ho)
    rw [← h.bytes o ho]
    exact bytesAt_map rfl fun mem i h₁ h₂ => if_neg (by omega)
  by_cases hlisted : nullMetaData = true ∨ val.binder ≠ 0
  · have hobj : (placeObject val nullMetaData capacity r).mObjects = p.mObjects ++ [r.mDataPos] := by
      rw [← h.objects]
      exact if_pos hlisted
    have hnew : added p (placeObject val nullMetaData capacity r) [val] = [(r.mDataPos, val)] := by
      unfold added
      rw [hobj, drop_left]
      rfl
    rw [hnew]
    refine ⟨hl, ⟨p.mObjects, by simp, by simp [hobj], hkept⟩, ?_,
      .acquire val :: .store r.mDataPos sizeofFlatBinderObject r.mDataCapacity :: es, ?_, ?_, ?_⟩
    · intro e he
      rw [mem_singleton.mp he]
      exact bytesAt_memcpy hsome rfl
    · simp [placeObject, hlisted, hev]
    · rw [objectsAt_nil]
      exact .of_eq hes.1
    · have hacq : acquires (.acquire val :: .store r.mDataPos sizeofFlatBinderObject r.mDataCapacity :: es) = [val] :=
        congrArg (val :: ·) hes.2
      rw [hacq]
      exact .refl _
  · have hobj : (placeObject val nullMetaData capacity r).mObjects = p.mObjects := by
      rw [← h.objects]
      exact if_neg hlisted
    rw [added_eq_nil (le_of_eq (congrArg List.length hobj))]
    refine .quiet hl (.of_eq hobj) hkept (?_ : _ = (.store r.mDataPos sizeofFlatBinderObject r.mDataCapacity :: es) ++ _)
      ?_
    · simp [placeObject, hlisted, hev]
    · have hstore : Silent [.store r.mDataPos sizeofFlatBinderObject r.mDataCapacity] := ⟨rfl, rfl⟩
      exact hstore.append hes

theorem Laid.objectWritten (h : Laid p)
    (hkeeps : p.WriteKeeps sizeofFlatBinderObject) (hw : ObjectWritten env val nullMetaData p st q) :
    Changed p [] (added p q [val]) q := by
  cases hw with
  | stayed hr hst => exact (h.stayed hr hst).nothing_added _
  | noTable hr =>
    have hext := h.extended (by decide) hkeeps.2 hr
    exact (hext.stored hkeeps.1 (.refl _ _)).nothing_added _
  | banned _ hr =>
    have hext := h.extended (by decide) hkeeps.2 hr
    have hstored := hext.stored hkeeps.1 ((Stored.refl _ _).store (.ofBytes val.bytes) le_rfl le_rfl)
    apply Changed.nothing_added
    exact ⟨{ hstored.laid with }, hstored.table, hstored.placed, hstored.events⟩
  | placed capacity hr => exact (h.extended (by decide) hkeeps.2 hr).placed val nullMetaData capacity hkeeps.1.clear

/-! ### Size -/

theorem keptObjects_isPrefix (p : Parcel) (desired : ℕ) : p.keptObjects desired <+: p.mObjects := by
  unfold keptObjects
  split_ifs
  · exact nil_prefix
  · exact rdropWhile_prefix _ _
  · exact prefix_rfl

theorem dropObjects_mObjects (h : kept <+: p.mObjects) : (p.dropObjects env kept).mObjects = kept := by
  unfold dropObjects
  by_cases hlen : kept.length < p.mObjects.length
  · rw [if_pos hlen]
    rfl
  · rw [if_neg hlen]
    exact (h.eq_of_length (le_antisymm h.length_le (not_lt.mp hlen))).symm

theorem dropObjects_events (kept : List ℕ) : (p.dropObjects env kept).events =
    (p.objectsAt (p.mObjects.drop kept.length)).reverse.map .release ++ p.events := by
  unfold dropObjects
  by_cases hlen : kept.length < p.mObjects.length
  · rw [if_pos hlen]
    rfl
  · rw [if_neg hlen, drop_eq_nil_of_le (not_lt.mp hlen), objectsAt_nil]
    rfl

theorem releases_map_release (objs : List FlatBinderObject) : releases (objs.map .release) = objs := by
  induction objs with
  | nil => rfl
  | cons obj objs ih => exact congrArg (obj :: ·) ih

theorem acquires_map_release (objs : List FlatBinderObject) : acquires (objs.map .release) = [] := by
  induction objs with
  | nil => rfl
  | cons obj objs ih => exact ih

/-- The entries behind `kept` are dropped, and then the data is resized. -/
theorem Laid.shrunk (h : Laid p) (hkept : kept <+: p.mObjects) (hobj : q.mObjects = kept)
    (hbytes : ∀ o ∈ kept, q.bytesAt o sizeofFlatBinderObject = p.bytesAt o sizeofFlatBinderObject)
    (hev : q.events = es ++ ((p.objectsAt (p.mObjects.drop kept.length)).reverse.map .release ++ p.events)) (hes : Silent es)
    (hown : q.mOwner = false) (hsize : q.mDataSize ≤ q.mDataCapacity) (hcap : q.mDataCapacity ≤ int32Max)
    (hpos : q.mDataPos ≤ int32Max + 3) (hnull : q.mData = none → q.mDataCapacity = 0)
    (hin : ∀ o ∈ kept, o + sizeofFlatBinderObject ≤ q.mDataSize) :
    Changed p (p.mObjects.drop kept.length) [] q := by
  refine ⟨⟨hown, hsize, hcap, hpos, hnull, ?_, ?_⟩, ⟨kept, ?_, ?_, hbytes⟩, by simp, ?_⟩
  · rwa [hobj]
  · rw [hobj]
    exact h.apart.sublist hkept.sublist
  · rw [← prefix_iff_eq_append.mp hkept]
    simp
  · simp [hobj]
  · refine ⟨es ++ (p.objectsAt (p.mObjects.drop kept.length)).reverse.map .release, by rw [hev, append_assoc], ?_, ?_⟩
    · rw [releases_append, hes.1, releases_map_release, nil_append]
      exact reverse_perm _
    · rw [acquires_append, hes.2, acquires_map_release]
      exact .refl _

/-- `q` is `p` with the entries behind `kept` dropped and a block of at least `size` bytes. -/
structure Refitted (p : Parcel) (kept : List ℕ) (size : ℕ) (q : Parcel) : Prop where
  own : q.mOwner = false
  objects : q.mObjects = kept
  bytes : ∀ o ∈ kept, q.bytesAt o sizeofFlatBinderObject = p.bytesAt o sizeofFlatBinderObject
  events : ∃ es, q.events = es ++ ((p.objectsAt (p.mObjects.drop kept.length)).reverse.map .release ++ p.events) ∧ Silent es
  pos : q.mDataPos ≤ int32Max + 3
  data : q.mData ≠ none
  capacity : q.mDataCapacity ≤ int32Max
  room : size ≤ q.mDataCapacity
  size : q.mDataSize = min p.mDataSize size

/-- What `setDataSize` needs: the objects that stay listed lie before the new end. -/
def SizeFits (p : Parcel) (size : ℕ) : Prop := ∀ o ∈ p.keptObjects size, o + sizeofFlatBinderObject ≤ size
deriving Decidable

theorem Refitted.changed (hq : Refitted p kept size q) (h : Laid p) (hkept : kept <+: p.mObjects)
    {size' : ℕ} (hsize : size' ≤ q.mDataCapacity) (hin : ∀ o ∈ kept, o + sizeofFlatBinderObject ≤ size') :
    Changed p (p.mObjects.drop kept.length) [] { q with mDataSize := size' } := by
  obtain ⟨es, hev, hes⟩ := hq.events
  exact h.shrunk hkept hq.objects hq.bytes hev hes hq.own hsize hq.capacity hq.pos (fun hnone => absurd hnone hq.data) hin

theorem Laid.resizedOwn (h : Laid p) (hdata : p.mData ≠ none) (hmax : size ≤ int32Max)
    (hres : ResizedOwn env size (p.dropObjects env (p.keptObjects size)) .ok q) :
    Refitted p (p.keptObjects size) size q := by
  have hkept := keptObjects_isPrefix p size
  have hsize := h.size
  have hpos := h.pos
  have hcap := h.capacity
  cases hres with
  | moved mem fresh hmem hlt =>
    rw [dropObjects_mData] at hmem
    rw [dropObjects_mDataCapacity] at hlt
    refine ⟨by simpa using h.own, dropObjects_mObjects hkept, fun o ho => ?_,
      ⟨moveStores p.mDeallocZero p.mDataCapacity size, ?_, silent_moveStores _ _ _⟩, ?_, ?_, hmax, le_rfl, ?_⟩
    · have hin := h.inside o (hkept.subset ho)
      refine bytesAt_map (f := fun mem => Memory.memcpy fresh 0 mem p.mDataCapacity) ?_ fun m i h₁ h₂ => ?_
      · simp [hmem]
      · exact if_pos ⟨Nat.zero_le _, by omega⟩
    · rw [log_events, dropObjects_events, dropObjects_mDeallocZero, dropObjects_mDataCapacity]
    · simpa using hpos
    · simp
    · simp only [log_mDataSize, dropObjects_mDataSize]
      omega
  | clamped hle =>
    refine ⟨by simpa using h.own, dropObjects_mObjects hkept, fun o ho => ?_, ⟨[], ?_, rfl, rfl⟩, ?_, ?_, ?_, ?_, ?_⟩
    · unfold bytesAt
      rw [dropObjects_mData]
    · exact dropObjects_events _
    · simp only [dropObjects_mDataPos]
      omega
    · simpa using hdata
    · simpa using hcap
    · simpa using hle
    · simp

theorem Laid.continued (h : Laid p) (hc : Continued env size p st q) :
    (st ≠ .ok ∧ ∃ dropped, Changed p dropped [] q) ∨ st = .ok ∧ Refitted p (p.keptObjects size) size q := by
  have hkept := keptObjects_isPrefix p size
  cases hc with
  | refused => exact .inl ⟨by simp, [], .refl h⟩
  | failed => exact .inl ⟨by simp, [], .quiet { h with } (.refl _) (fun _ _ => rfl) (nil_append _).symm ⟨rfl, rfl⟩⟩
  | emptied hown | taken _ _ hown =>
    rw [h.own] at hown
    cases hown
  | first _ hmax hown hnone =>
    obtain ⟨hzero, hnil⟩ := h.empty_of_null hnone
    have hno : p.keptObjects size = [] := eq_nil_of_prefix_nil (hnil ▸ hkept)
    rw [hno]
    refine .inr ⟨rfl, hown, hnil, by simp, ⟨[], ?_, rfl, rfl⟩, Nat.zero_le _, by simp, hmax, le_rfl, ?_⟩
    · simp [hnil, objectsAt_nil]
    · dsimp only
      omega
  | own hmax _ hdata hres =>
    rw [Option.isSome_iff_ne_none] at hdata
    cases hst : hres with
    | failed =>
      have hev : (p.dropObjects env (p.keptObjects size)).events = [] ++
          ((p.objectsAt (p.mObjects.drop (p.keptObjects size).length)).reverse.map .release ++ p.events) :=
        dropObjects_events _
      refine .inl ⟨by simp, _, h.shrunk hkept (dropObjects_mObjects hkept) ?_ hev ⟨rfl, rfl⟩ ?_ ?_ ?_ ?_ ?_ ?_⟩
      · intro o _
        unfold bytesAt
        rw [dropObjects_mData]
      · simpa using h.own
      · simpa using h.size
      · simpa using h.capacity
      · simpa using h.pos
      · simpa using h.null
      · simpa using fun o ho => h.inside o (hkept.subset ho)
    | moved | clamped => exact .inr ⟨rfl, h.resizedOwn hdata hmax hres⟩

theorem Laid.sizeSet (h : Laid p) (hsize : p.SizeFits size) (hs : SizeSet env size p q) :
    ∃ dropped, Changed p dropped [] q := by
  cases hs with
  | rejected => exact ⟨[], .refl h⟩
  | stayed hc hst =>
    rcases h.continued hc with ⟨-, hchanged⟩ | ⟨rfl, -⟩
    · exact hchanged
    · exact absurd rfl hst
  | set hc =>
    rcases h.continued hc with ⟨hst, -⟩ | ⟨-, hfit⟩
    · exact absurd rfl hst
    · exact ⟨_, hfit.changed h (keptObjects_isPrefix p size) hfit.room hsize⟩

theorem Laid.capacitySet (h : Laid p) (hs : CapacitySet env size p q) : ∃ dropped, Changed p dropped [] q := by
  cases hs with
  | stayed => exact ⟨[], .refl h⟩
  | continued _ hc =>
    rcases h.continued hc with ⟨-, hchanged⟩ | ⟨-, hfit⟩
    · exact hchanged
    · have hsize := h.size
      have hle : q.mDataSize = p.mDataSize := by
        rw [hfit.size]
        omega
      have hkept := keptObjects_isPrefix p size
      refine ⟨_, hfit.changed h hkept ?_ fun o ho => ?_⟩
      · have hroom := hfit.room
        omega
      · rw [hle]
        exact h.inside o (hkept.subset ho)

/-! ### Data from outside -/

theorem changed_renewed {capacity : ℕ} {data : Option Memory} {stores : List Event}
    (hstores : Silent stores) (hlen : len ≤ capacity) (hcap : capacity ≤ int32Max) (hnull : data = none → capacity = 0) :
    Changed p p.mObjects [] (renewed buffer len data capacity stores p) where
  laid := by
    refine ⟨rfl, hlen, hcap, Nat.zero_le _, fun hnone => ?_, by simp [renewed], .nil⟩
    exact hnull (by simpa [renewed] using hnone)
  table := ⟨[], by simp, by simp [renewed], by simp⟩
  placed := by simp
  events := by
    refine ⟨[.store 0 len capacity] ++ (p.objectsAt p.mObjects).map .release ++ stores, rfl, ?_, ?_⟩
    · rw [releases_append, releases_append, hstores.1, releases_map_release, append_nil]
      rfl
    · rw [acquires_append, acquires_append, hstores.2, acquires_map_release]
      exact .refl _

theorem Laid.dataSet (h : Laid p) (hs : DataSet env buffer len p q) : ∃ dropped, Changed p dropped [] q := by
  cases hs with
  | rejected => exact ⟨[], .refl h⟩
  | failed => exact ⟨[], .quiet { h with } (.refl _) (fun _ _ => rfl) (nil_append _).symm ⟨rfl, rfl⟩⟩
  | moved _ hmax => exact ⟨_, changed_renewed (silent_moveStores _ _ _) le_rfl hmax (by simp)⟩
  | vanished hzero => exact ⟨_, changed_renewed ⟨rfl, rfl⟩ hzero.le (Nat.zero_le _) fun _ => rfl⟩
  | kept _ hle => exact ⟨_, changed_renewed ⟨rfl, rfl⟩ hle h.capacity h.null⟩

theorem freeDataNoInit_events (h : p.mOwner = false) : ∃ es, Silent es ∧
    p.freeDataNoInit.events = es ++ ((p.objectsAt p.mObjects).map .release ++ p.events) := by
  unfold freeDataNoInit
  simp only [h, Bool.false_eq_true, if_false]
  split_ifs
  · exact ⟨[.store 0 p.mDataSize p.mDataCapacity], ⟨rfl, rfl⟩, rfl⟩
  · exact ⟨[], ⟨rfl, rfl⟩, rfl⟩

theorem Laid.freeData (h : Laid p) : Changed p p.mObjects [] p.freeData where
  laid := .init _
  table := ⟨[], by simp, by simp [Parcel.freeData, initState], by simp⟩
  placed := by simp
  events := by
    obtain ⟨es, hes, hev⟩ := freeDataNoInit_events h.own
    refine ⟨es ++ (p.objectsAt p.mObjects).map .release, hev.trans (append_assoc _ _ _).symm, ?_, ?_⟩
    · rw [releases_append, hes.1, releases_map_release, nil_append]
    · rw [acquires_append, hes.2, acquires_map_release]
      exact .refl _

/-! ### Reads and the position -/

theorem Laid.perused (h : Laid p) (hq : Perused p q) : Changed p [] [] q := by
  obtain ⟨pos, objs, hint, flag, es, rfl, hperm, hpos, hes⟩ := hq
  have hle : pos ≤ int32Max + 3 := by
    have hpos₀ := h.pos
    have hsize := h.size
    have hcap := h.capacity
    omega
  refine .quiet ⟨h.own, h.size, h.capacity, hle, h.null, ?_, ?_⟩ hperm (fun _ _ => rfl) rfl ?_
  · intro o ho
    exact h.inside o (hperm.mem_iff.mp ho)
  · exact hperm.symm.pairwise h.apart Apart.symm
  · constructor
    · refine filterMap_eq_nil_iff.mpr fun e he => ?_
      obtain ⟨off, len, rfl⟩ := hes e he
      rfl
    · refine filterMap_eq_nil_iff.mpr fun e he => ?_
      obtain ⟨off, len, rfl⟩ := hes e he
      rfl

theorem Laid.setDataPosition (h : Laid p) (hq : setDataPosition pos p = some q) : Changed p [] [] q := by
  unfold Parcel.setDataPosition at hq
  split_ifs at hq with hmax
  cases hq
  have hle : pos ≤ int32Max + 3 := by omega
  exact .quiet { h with pos := hle } (.refl _) (fun _ _ => rfl) (nil_append _).symm ⟨rfl, rfl⟩

/-! ### Appending -/

/-- What `appendFrom` needs where its arguments pass the checks: it overlaps no object and finds its room.
The objects it takes over lie in the range, apart from each other, and come to stand inside the data. -/
def AppendKeeps (src : Parcel) (offset len : ℕ) (p : Parcel) : Prop :=
  let capacity := if p.mDataSize + len > p.mDataCapacity then p.wanted len else p.mDataCapacity
  let objects := objectsBetween src.mObjects offset len
  0 < len ∧ len ≤ int32Max ∧ offset + len ≤ src.mDataSize →
    p.Clear len ∧ (p.mData = none ∨ int32Max < capacity ∨ p.mDataPos + len ≤ capacity) ∧
      (objects ≠ [] → p.mDataPos ≤ p.mDataSize) ∧ objects.Pairwise Apart ∧
      ∀ off ∈ objects, offset ≤ off ∧ off + sizeofFlatBinderObject ≤ offset + len
deriving Decidable

theorem Changed.trans {new₁ new₂ : List (ℕ × FlatBinderObject)} (h₁ : Changed p [] new₁ q) (h₂ : Changed q [] new₂ r) :
    Changed p [] (new₁ ++ new₂) r := by
  obtain ⟨kept₁, hp₁, hq₁, hbytes₁⟩ := h₁.table
  obtain ⟨kept₂, hp₂, hq₂, hbytes₂⟩ := h₂.table
  obtain ⟨es₁, hev₁, hrel₁, hacq₁⟩ := h₁.events
  obtain ⟨es₂, hev₂, hrel₂, hacq₂⟩ := h₂.events
  rw [append_nil] at hp₁ hp₂
  rw [objectsAt_nil, perm_nil] at hrel₁ hrel₂
  have hmem {o : ℕ} (ho : o ∈ kept₁ ++ new₁.map Prod.fst) : o ∈ kept₂ := hp₂.mem_iff.mp (hq₁.mem_iff.mpr ho)
  refine ⟨h₂.laid, ⟨kept₁, by simpa using hp₁, ?_, fun o ho => ?_⟩, fun e he => ?_, es₂ ++ es₁, ?_, ?_, ?_⟩
  · rw [map_append, ← append_assoc]
    exact hq₂.trans ((hp₂.symm.trans hq₁).append_right _)
  · rw [hbytes₂ o (hmem (mem_append_left _ ho)), hbytes₁ o ho]
  · rcases mem_append.mp he with he | he
    · rw [hbytes₂ e.1 (hmem (mem_append_right _ (mem_map_of_mem he))), h₁.placed e he]
    · exact h₂.placed e he
  · rw [hev₂, hev₁, append_assoc]
  · rw [objectsAt_nil]
    rw [releases_append, hrel₁, hrel₂, nil_append]
  · rw [acquires_append, filter_append, map_append, filter_append]
    exact (hacq₂.append hacq₁).trans perm_append_comm

theorem adopted_type (env : Env) (obj : FlatBinderObject) : (obj.adopted env).type = obj.type := by
  unfold FlatBinderObject.adopted
  split_ifs <;> rfl

theorem filter_adopted (env : Env) (obj : FlatBinderObject) :
    ([obj].filter (·.IsRef)).Perm ([obj.adopted env].filter (·.IsRef)) := by
  by_cases hfd : obj.type = binderTypeFd
  · have hfd' : (obj.adopted env).type = binderTypeFd := (adopted_type env obj).trans hfd
    simp [FlatBinderObject.IsRef, hfd, hfd']
  · rw [FlatBinderObject.adopted, if_neg hfd]

/-- The bytes outside the object at `off` stay. -/
theorem adoptObject_eq {mem : Memory} (env : Env) (off : ℕ) (hmem : p.mData = some mem) : ∃ mem' has known es,
    (adoptObject env off p).2 = { p with
      mData := some mem', mObjects := p.mObjects ++ [off], mHasFds := has, mFdsKnown := known, events := es ++ p.events } ∧
    (∀ i, i < off ∨ off + sizeofFlatBinderObject ≤ i → mem' i = mem i) ∧
    mem'.load off sizeofFlatBinderObject = ((FlatBinderObject.load mem off).adopted env).bytes ∧
    releases es = [] ∧ acquires es = [FlatBinderObject.load mem off] := by
  have hsizeof : sizeofFlatBinderObject = 24 := rfl
  unfold adoptObject
  rw [hmem, Option.getD_some]
  by_cases hfd : (FlatBinderObject.load mem off).type = binderTypeFd
  · rw [if_pos hfd, FlatBinderObject.adopted, if_pos hfd]
    refine ⟨Memory.memcpy (Memory.memcpy mem (off + 8) (.ofBytes (leBytes 4 (env.dup (FlatBinderObject.load mem off).handle))) 4)
        (off + 16) (.ofBytes (leBytes 8 1)) 8, true, true, [.store (off + 16) 8 p.mDataCapacity, .store (off + 8) 4
        p.mDataCapacity, .acquire (FlatBinderObject.load mem off)], ?_, fun i hi => ?_, ?_, rfl, rfl⟩
    · simp [Parcel.store, log]
    · unfold Memory.memcpy
      rw [if_neg (by omega), if_neg (by omega)]
    · exact FlatBinderObject.bytes_dup _
  · rw [if_neg hfd, FlatBinderObject.adopted, if_neg hfd, FlatBinderObject.bytes_load]
    refine ⟨mem, p.mHasFds, p.mFdsKnown, [.acquire (FlatBinderObject.load mem off)], ?_, fun _ _ => rfl, rfl, rfl, rfl⟩
    simp [log]

theorem Laid.adoptObject {off : ℕ} {mem : Memory} (env : Env) (h : Laid p) (hmem : p.mData = some mem)
    (hin : off + sizeofFlatBinderObject ≤ p.mDataSize) (hap : ∀ o ∈ p.mObjects, Apart o off) :
    Changed p [] [(off, (FlatBinderObject.load mem off).adopted env)] (adoptObject env off p).2 := by
  obtain ⟨mem', has, known, es, heq, hout, hbytes, hrel, hacq⟩ := adoptObject_eq env off hmem
  rw [heq]
  refine ⟨⟨h.own, h.size, h.capacity, h.pos, by simp, fun o ho => ?_, ?_⟩, ⟨p.mObjects, by simp, .refl _, fun o ho => ?_⟩,
    fun e he => ?_, es, rfl, ?_, ?_⟩
  · rcases mem_append.mp ho with ho | ho
    · exact h.inside o ho
    · rw [mem_singleton.mp ho]
      exact hin
  · refine pairwise_append.mpr ⟨h.apart, pairwise_singleton _ _, fun o ho x hx => ?_⟩
    rw [mem_singleton.mp hx]
    exact hap o ho
  · have hno : o + sizeofFlatBinderObject ≤ off ∨ off + sizeofFlatBinderObject ≤ o := hap o ho
    unfold bytesAt
    rw [hmem, Option.elim_some, Option.elim_some]
    exact Memory.load_congr fun i hi => hout (o + i) (by omega)
  · rw [mem_singleton.mp he]
    exact hbytes
  · rw [hrel, objectsAt_nil]
  · rw [hacq]
    exact filter_adopted env _

/-- `es` are the entries with the objects that stand there before they are adopted. -/
theorem Laid.adoptObjects {es : List (ℕ × FlatBinderObject)} {mem : Memory} (env : Env) (h : Laid p)
    (hmem : p.mData = some mem) (hin : ∀ e ∈ es, e.1 + sizeofFlatBinderObject ≤ p.mDataSize)
    (hap : (p.mObjects ++ es.map Prod.fst).Pairwise Apart) (hobj : ∀ e ∈ es, FlatBinderObject.load mem e.1 = e.2) :
    Changed p [] (es.map fun e => (e.1, e.2.adopted env)) (adoptObjects env (es.map Prod.fst) p).2 ∧
      (adoptObjects env (es.map Prod.fst) p).2.mObjects = p.mObjects ++ es.map Prod.fst := by
  induction es generalizing p mem with
  | nil => exact ⟨.refl h, by simp [Parcel.adoptObjects]⟩
  | cons e es ih =>
    obtain ⟨o, obj⟩ := e
    obtain ⟨mem', has, known, evs, heq, hout, hbytes, -, -⟩ := adoptObject_eq env o hmem
    obtain ⟨hold, hnew, hcross⟩ := pairwise_append.mp hap
    rw [map_cons, pairwise_cons] at hnew
    have hfirst := h.adoptObject env hmem (hin _ mem_cons_self) fun x hx => hcross x hx o mem_cons_self
    have hobj₀ : FlatBinderObject.load mem o = obj := hobj _ mem_cons_self
    rw [hobj₀] at hfirst
    have hmem' : (Parcel.adoptObject env o p).2.mData = some mem' := by rw [heq]
    have hrest := ih hfirst.laid hmem' ?_ ?_ ?_
    · obtain ⟨hchanged, hobjs⟩ := hrest
      refine ⟨hfirst.trans hchanged, ?_⟩
      change (Parcel.adoptObjects env (es.map Prod.fst) (Parcel.adoptObject env o p).2).2.mObjects = _
      rw [hobjs, heq]
      simp
    · intro e he
      rw [heq]
      exact hin e (mem_cons_of_mem _ he)
    · rw [heq]
      simpa using hap
    · -- the next objects do not overlap the one that was adopted
      intro e he
      rw [← hobj e (mem_cons_of_mem _ he)]
      have hno : o + sizeofFlatBinderObject ≤ e.1 ∨ e.1 + sizeofFlatBinderObject ≤ o :=
        hnew.1 e.1 (mem_map_of_mem he)
      exact FlatBinderObject.load_congr (Memory.load_congr fun i hi => hout (e.1 + i) (by omega))

/-! #### Room for the data -/

theorem Laid.spaced (h : Laid p) (hpos : 0 < len) (hlen : len ≤ int32Max)
    (hroom : p.mData = none ∨ int32Max < (if p.mDataSize + len > p.mDataCapacity then p.wanted len else p.mDataCapacity) ∨
      p.mDataPos + len ≤ if p.mDataSize + len > p.mDataCapacity then p.wanted len else p.mDataCapacity)
    (hr : Spaced env len p r) : Extended p len r ∧ r.mDataSize + len ≤ r.mDataCapacity ∧
      (p.mDataPos ≤ p.mDataSize → r.mDataPos = p.mDataPos) := by
  have hcap := h.capacity
  cases hr with
  | fits hfits =>
    rw [if_neg (not_lt.mpr hfits)] at hroom
    have hsome : p.mData ≠ none := by
      intro hnone
      have hzero := h.null hnone
      omega
    have hroom := hroom.resolve_left hsome
    exact ⟨⟨h, rfl, rfl, fun _ _ => rfl, fun _ => id, by omega, [], rfl, rfl, rfl⟩, hfits, fun _ => rfl⟩
  | grown hlt hr =>
    rw [if_pos hlt] at hroom
    have hext : Extended p len r := by
      refine h.extended (by omega) (hroom.imp id fun hr => ?_) hr
      unfold Room
      omega
    have hwanted : p.mDataSize + len ≤ p.wanted len := by
      unfold wanted
      omega
    refine ⟨hext, by rw [hext.size]; omega, fun hle => ?_⟩
    cases hr with
    | fits => rfl
    | refused hne => exact absurd rfl hne
    | enlarged henl =>
      cases henl with
      | taken _ hown =>
        rw [h.own] at hown
        cases hown
      | first _ _ hnone =>
        have hzero := (h.empty_of_null hnone).1
        exact (Nat.le_zero.mp (hzero ▸ hle)).symm
      | moved => rfl
      | clamped => exact min_eq_left (by omega)

theorem Extended.copied (src : Parcel) (offset capacity : ℕ) (h : Extended p len r) (hclear : p.Clear len)
    (hsize : r.mDataSize + len ≤ r.mDataCapacity) : Changed p [] [] (copied src offset len capacity r) := by
  obtain ⟨es, hev, hes⟩ := h.events
  have hl := h.laid
  have hfits := h.fits
  have hcap := hl.capacity
  refine .quiet ⟨hl.own, hsize, hcap, ?_, ?_, fun o ho => ?_, hl.apart⟩ (.of_eq h.objects) (fun o ho => ?_)
    (?_ : _ = (.store r.mDataPos len r.mDataCapacity :: es) ++ p.events) ?_
  · change r.mDataPos + len ≤ int32Max + 3
    omega
  · intro hnone
    exact hl.null (by simpa [Parcel.copied] using hnone)
  · exact (hl.inside o ho).trans (Nat.le_add_right _ _)
  · have hc := h.clear _ hclear o (h.objects ▸ ho)
    rw [← h.bytes o ho]
    exact bytesAt_map rfl fun mem i h₁ h₂ => if_neg (by omega)
  · rw [Parcel.copied, hev]
    rfl
  · have hstore : Silent [.store r.mDataPos len r.mDataCapacity] := ⟨rfl, rfl⟩
    exact hstore.append hes

theorem movedTo_eq {startPos off : ℕ} (hlen : len ≤ int32Max) (hstart : startPos ≤ int32Max)
    (hoff : offset ≤ off) (hend : off + sizeofFlatBinderObject ≤ offset + len) :
    movedTo offset startPos off = startPos + (off - offset) := by
  have hmax : int32Max = 2 ^ 31 - 1 := rfl
  have hint : toInt32 startPos = startPos := by
    unfold toInt32
    rw [Nat.mod_eq_of_lt (by omega), if_pos (by omega)]
  unfold movedTo
  omega

/-- The objects that `appendFrom` records. -/
def adoptedObjects (env : Env) (src : Parcel) (offset len : ℕ) : List FlatBinderObject :=
  (objectsBetween src.mObjects offset len).map fun off =>
    (FlatBinderObject.load (src.mData.getD fun _ => 0) off).adopted env

theorem load_dataFrom {mem : Memory} {off : ℕ} (hoff : offset ≤ off)
    (hend : off + sizeofFlatBinderObject ≤ offset + len) :
    FlatBinderObject.load (Memory.memcpy mem pos (dataFrom src offset) len) (pos + (off - offset)) =
      FlatBinderObject.load (src.mData.getD fun _ => 0) off := by
  refine FlatBinderObject.load_congr (Memory.load_congr fun i hi => ?_)
  have hin : Memory.memcpy mem pos (dataFrom src offset) len (pos + (off - offset) + i) =
      dataFrom src offset (off - offset + i) := by
    unfold Memory.memcpy
    rw [if_pos (by omega)]
    congr 1
    omega
  rw [hin]
  unfold dataFrom
  cases src.mData with
  | none => rfl
  | some mem =>
    change mem (offset + (off - offset + i)) = mem (off + i)
    congr 1
    omega

theorem Laid.appended (h : Laid p) (hkeeps : AppendKeeps src offset len p)
    (hw : Appended env src offset len p q) : Changed p [] (added p q (adoptedObjects env src offset len)) q := by
  cases hw with
  | rejected => exact (Changed.refl h).nothing_added _
  | stayed hr hst => exact (h.stayed hr hst).nothing_added _
  | plain hpos hlen hsrc hr =>
    obtain ⟨hclear, hroom, -⟩ := hkeeps ⟨hpos, hlen, hsrc⟩
    obtain ⟨hext, hsize, -⟩ := h.spaced hpos hlen hroom hr
    exact (hext.copied src offset _ hclear hsize).nothing_added _
  | adopted capacity hpos hlen hsrc hr hne =>
    rename_i r
    obtain ⟨hclear, hroom, hinside, hap, hrange⟩ := hkeeps ⟨hpos, hlen, hsrc⟩
    obtain ⟨hext, hsize, hstart⟩ := h.spaced hpos hlen hroom hr
    have hobjects : objectsBetween src.mObjects offset len ≠ [] := by
      intro hnil
      exact hne (by rw [movedObjects, hnil]; rfl)
    have hpos₀ := hinside hobjects
    have hstart := hstart hpos₀
    have hcopied := hext.copied src offset capacity hclear hsize
    have hfits := hext.fits
    have hcap := hext.laid.capacity
    have hmem : ∃ mem, r.mData = some mem := by
      refine Option.ne_none_iff_exists'.mp fun hnone => ?_
      have hzero := hext.laid.null hnone
      omega
    obtain ⟨mem, hmem⟩ := hmem
    let es := (objectsBetween src.mObjects offset len).map fun off =>
      (movedTo offset p.mDataPos off, FlatBinderObject.load (src.mData.getD fun _ => 0) off)
    have hfst : es.map Prod.fst = movedObjects src offset len p.mDataPos := by
      simp [es, movedObjects, Function.comp_def]
    have hmoved {off : ℕ} (ho : off ∈ objectsBetween src.mObjects offset len) :
        movedTo offset p.mDataPos off = p.mDataPos + (off - offset) :=
      movedTo_eq hlen (by omega) (hrange off ho).1 (hrange off ho).2
    have hdata : (Parcel.copied src offset len capacity r).mData =
        some (Memory.memcpy mem r.mDataPos (dataFrom src offset) len) := by
      simp [Parcel.copied, hmem]
    have hmem_es {e : ℕ × FlatBinderObject} (he : e ∈ es) : ∃ off ∈ objectsBetween src.mObjects offset len,
        e = (p.mDataPos + (off - offset), FlatBinderObject.load (src.mData.getD fun _ => 0) off) := by
      obtain ⟨off, ho, rfl⟩ := mem_map.mp he
      exact ⟨off, ho, by rw [hmoved ho]⟩
    have hin : ∀ e ∈ es, e.1 + sizeofFlatBinderObject ≤ (Parcel.copied src offset len capacity r).mDataSize := by
      intro e he
      obtain ⟨off, ho, rfl⟩ := hmem_es he
      have hr := hrange off ho
      have hsame := hext.size
      change p.mDataPos + (off - offset) + sizeofFlatBinderObject ≤ r.mDataSize + len
      omega
    have hpair : (r.mObjects ++ es.map Prod.fst).Pairwise Apart := by
      refine pairwise_append.mpr ⟨hext.laid.apart, ?_, fun o ho x hx => ?_⟩
      · rw [hfst, movedObjects, pairwise_map]
        refine hap.imp_of_mem fun {a b} ha hb hab => ?_
        rw [hmoved ha, hmoved hb]
        have hra := hrange a ha
        have hrb := hrange b hb
        unfold Apart at hab ⊢
        omega
      · obtain ⟨e, he, rfl⟩ := mem_map.mp hx
        obtain ⟨off, hoff, rfl⟩ := hmem_es he
        have hr := hrange off hoff
        have hc := hclear o (hext.objects ▸ ho)
        unfold Apart
        omega
    have hobj : ∀ e ∈ es, FlatBinderObject.load (Memory.memcpy mem r.mDataPos (dataFrom src offset) len) e.1 = e.2 := by
      intro e he
      obtain ⟨off, ho, rfl⟩ := hmem_es he
      rw [hstart]
      exact load_dataFrom (hrange off ho).1 (hrange off ho).2
    obtain ⟨hchanged, htable⟩ := hcopied.laid.adoptObjects env hdata hin hpair hobj
    rw [hfst] at hchanged htable
    have hadded : added p (Parcel.adoptObjects env (movedObjects src offset len p.mDataPos)
        (Parcel.copied src offset len capacity r)).2 (adoptedObjects env src offset len) =
          es.map fun e => (e.1, e.2.adopted env) := by
      have hold : (Parcel.copied src offset len capacity r).mObjects = p.mObjects := hext.objects
      unfold added
      rw [htable, hold, drop_left]
      simp only [movedObjects, adoptedObjects, es, map_map, zip_map']
      rfl
    rw [hadded]
    exact hcopied.trans hchanged

end Binder.Parcel
