import Binder.Parcel.Failure
import Binder.Parcel.Incoming
import Binder.Parcel.Table

/-! When `appendFrom` splices a range of another parcel into the data. -/
namespace Binder.Parcel
open Binder.Lib List

variable {p q r src : Parcel} {env : Env} {offset len pos off : ℕ}

def LiesIn (offset len off : ℕ) : Prop := offset ≤ off ∧ off + sizeofFlatBinderObject ≤ offset + len
deriving Decidable

/-- `q` is `p` with the range of the source put over the bytes at the position. -/
structure Spliced (src : Parcel) (offset len : ℕ) (p q : Parcel) : Prop where
  copied : ∀ i < len, byteAt (p.mDataPos + i) q = some (dataFrom src offset i)
  kept : ∀ i, InData i p → i < p.mDataPos ∨ p.mDataPos + len ≤ i → byteAt i q = byteAt i p
  size : q.mDataSize = max p.mDataSize (p.mDataPos + len)
  pos : q.mDataPos = p.mDataPos + len
  objects : q.mObjects = p.mObjects ++
    (src.mObjects.filter fun off => LiesIn offset len off).map fun off => p.mDataPos + (off - offset)

/-! ### The entries -/

theorem filter_dropWhile {α : Type*} {f g : α → Bool} (hfg : ∀ a, f a = true → g a = false) (l : List α) :
    (l.dropWhile g).filter f = l.filter f := by
  induction l with
  | nil => rfl
  | cons a l ih =>
    rw [dropWhile_cons]
    split_ifs with hg
    · have hf : f a = false := by
        by_contra hf
        simp [hfg a (by simpa using hf)] at hg
      rw [ih, filter_cons_of_neg (by simp [hf])]
    · rfl

/-- What is cut off at both ends is outside the range. -/
theorem filter_objectsBetween (objects : List ℕ) (offset len : ℕ) :
    (objectsBetween objects offset len).filter (fun off => LiesIn offset len off) =
      objects.filter fun off => LiesIn offset len off := by
  have hout (off : ℕ) (h : decide (LiesIn offset len off) = true) : (!inRange offset len off) = false := by
    obtain ⟨hle, hend⟩ := of_decide_eq_true h
    simp only [inRange, Bool.not_eq_false', Bool.and_eq_true, decide_eq_true_eq]
    omega
  unfold objectsBetween List.rdropWhile
  rw [filter_reverse, filter_dropWhile hout, ← filter_reverse, reverse_reverse, filter_dropWhile hout]

/-- The moved entries are those of the objects in the range if no other entry is between them. -/
theorem movedObjects_eq_iff : movedObjects src offset len pos =
      ((src.mObjects.filter fun off => LiesIn offset len off).map fun off => pos + (off - offset)) ↔
    ∀ off ∈ objectsBetween src.mObjects offset len,
      LiesIn offset len off ∧ movedTo offset pos off = pos + (off - offset) := by
  unfold movedObjects
  rw [← filter_objectsBetween]
  constructor
  · intro heq
    have hlen := congrArg List.length heq
    rw [length_map, length_map] at hlen
    have hall : ∀ off ∈ objectsBetween src.mObjects offset len, decide (LiesIn offset len off) = true :=
      length_filter_eq_length_iff.mp hlen.symm
    rw [filter_eq_self.mpr hall] at heq
    exact fun off hoff => ⟨of_decide_eq_true (hall off hoff), map_inj_left.mp heq off hoff⟩
  · intro hall
    rw [filter_eq_self.mpr fun off hoff => decide_eq_true (hall off hoff).1]
    exact map_congr_left fun off hoff => (hall off hoff).2

/-! ### File descriptors -/

/-- A file descriptor at `off` is replaced by a duplicate. -/
def duplicate (env : Env) (mem : Memory) (off : ℕ) : Memory :=
  if FdAt mem off then
    Memory.memcpy (Memory.memcpy mem (off + 8) (.ofBytes (leBytes 4 (env.dup (FlatBinderObject.load mem off).handle))) 4)
      (off + 16) (.ofBytes (leBytes 8 1)) 8
  else mem

def duplicates (env : Env) (offs : List ℕ) (mem : Memory) : Memory := offs.foldl (duplicate env) mem

theorem adoptObject_fields (env : Env) (off : ℕ) (p : Parcel) :
    (adoptObject env off p).2.mData = p.mData.map (duplicate env · off) ∧
      (adoptObject env off p).2.mObjects = p.mObjects ++ [off] := by
  cases hmem : p.mData with
  | none =>
    unfold adoptObject
    dsimp only
    split_ifs <;> exact ⟨by simp [hmem], rfl⟩
  | some mem =>
    unfold adoptObject
    simp only [hmem, Option.getD_some, Option.map_some]
    by_cases hfd : FdAt mem off
    · rw [duplicate, if_pos hfd, if_pos (show (FlatBinderObject.load mem off).type = binderTypeFd from hfd)]
      exact ⟨by simp, rfl⟩
    · rw [duplicate, if_neg hfd, if_neg (show ¬ (FlatBinderObject.load mem off).type = binderTypeFd from hfd)]
      exact ⟨rfl, rfl⟩

theorem adoptObjects_fields (env : Env) (offs : List ℕ) (p : Parcel) :
    (adoptObjects env offs p).2.mData = p.mData.map (duplicates env offs) ∧
      (adoptObjects env offs p).2.mObjects = p.mObjects ++ offs := by
  induction offs generalizing p with
  | nil => exact ⟨Option.map_id'.symm, (append_nil _).symm⟩
  | cons off offs ih =>
    obtain ⟨hdata, hobj⟩ := adoptObject_fields env off p
    obtain ⟨hdata', hobj'⟩ := ih (adoptObject env off p).2
    rw [hdata, Option.map_map] at hdata'
    rw [hobj, append_assoc] at hobj'
    exact ⟨hdata', hobj'⟩

variable {mem mem' : Memory} {i : ℕ} {offs : List ℕ}

theorem duplicate_before (hi : i < off) : duplicate env mem off i = mem i := by
  unfold duplicate
  split_ifs
  · simp only [Memory.memcpy]
    rw [if_neg (by omega), if_neg (by omega)]
  · rfl

theorem duplicates_before (h : ∀ off ∈ offs, i < off) : duplicates env offs mem i = mem i := by
  induction offs generalizing mem with
  | nil => rfl
  | cons off offs ih =>
    obtain ⟨hoff, hoffs⟩ := forall_mem_cons.mp h
    exact (ih hoffs).trans (duplicate_before hoff)

/-- The duplicates do not depend on where the range stands. -/
theorem sameRange_duplicate (h : Memory.SameRange len mem pos mem' offset) (hin : LiesIn offset len off) :
    Memory.SameRange len (duplicate env mem (pos + (off - offset))) pos (duplicate env mem' off) offset := by
  obtain ⟨k, rfl⟩ := Nat.exists_eq_add_of_le hin.1
  have hend := hin.2
  have hload : FlatBinderObject.load mem (pos + k) = FlatBinderObject.load mem' (offset + k) := by
    refine FlatBinderObject.load_congr (Memory.load_congr fun i hi => ?_)
    rw [Nat.add_assoc, Nat.add_assoc]
    exact h (k + i) (by omega)
  have hiff : FdAt mem (pos + k) ↔ FdAt mem' (offset + k) := by
    unfold FdAt
    rw [hload]
  rw [Nat.add_sub_cancel_left]
  unfold duplicate
  by_cases hfd : FdAt mem' (offset + k)
  · rw [if_pos hfd, if_pos (hiff.mpr hfd), hload]
    exact (h.memcpy (k + 8) _ 4).memcpy (k + 16) _ 8
  · rw [if_neg hfd, if_neg (mt hiff.mp hfd)]
    exact h

theorem sameRange_duplicates (h : Memory.SameRange len mem pos mem' offset)
    (hin : ∀ off ∈ offs, LiesIn offset len off) :
    Memory.SameRange len (duplicates env (offs.map fun off => pos + (off - offset)) mem) pos
      (duplicates env offs mem') offset := by
  induction offs generalizing mem mem' with
  | nil => exact h
  | cons off offs ih =>
    obtain ⟨hoff, hoffs⟩ := forall_mem_cons.mp hin
    exact ih (sameRange_duplicate h hoff) hoffs

/-! ### The splice -/

/-- The range is appended at the end, no entry outside the range stands between those inside, and the duplicates
of its file descriptors are the same as the descriptors. -/
structure Spliceable (env : Env) (src : Parcel) (offset len : ℕ) (p : Parcel) : Prop where
  atEnd : p.mDataPos = p.mDataSize
  backed : p.mData = none → p.mDataCapacity < len
  entries : ∀ off ∈ objectsBetween src.mObjects offset len,
    LiesIn offset len off ∧ movedTo offset p.mDataPos off = p.mDataPos + (off - offset)
  descriptors : Memory.SameRange len (duplicates env (objectsBetween src.mObjects offset len) src.memory) offset
    src.memory offset

/-- Up to the end of the data the room for the range leaves everything in its place. -/
theorem roomToAppend_ready (h : roomToAppend env len p = (.ok, r)) (hpos : p.mDataPos ≤ p.mDataSize)
    (hback : p.mData = none → p.mDataSize = 0) :
    r.mDataPos = p.mDataPos ∧ r.mDataSize = p.mDataSize ∧ (∀ i, InData i p → byteAt i r = byteAt i p) ∧
      (r.mData = none ↔ p.mData = none ∧ p.mDataSize + len ≤ p.mDataCapacity) := by
  unfold roomToAppend at h
  split_ifs at h with hgrow
  · have henl := enlarged_of_growData h
    have hwanted := p.le_wanted len
    have hbytes : ∀ i, InData i p → byteAt i r = byteAt i p := by
      intro i hi
      cases hmem : p.mData with
      | none =>
        have hsize := hback hmem
        have hi := hi.1
        omega
      | some => exact henl.bytes hmem hi
    cases henl with
    | taken =>
      refine ⟨rfl, ?_, hbytes, iff_of_false (by simp [takeOver]) (by omega)⟩
      simp only [takeOver, log_mDataSize]
      split_ifs <;> omega
    | first _ _ hnone =>
      have hsize := hback hnone
      exact ⟨by dsimp only; omega, hsize.symm, hbytes, iff_of_false (by simp) (by omega)⟩
    | moved => exact ⟨rfl, rfl, hbytes, iff_of_false (by simp) (by omega)⟩
    | clamped _ hdata =>
      refine ⟨min_eq_left (by omega), rfl, hbytes, iff_of_false ?_ (by omega)⟩
      exact Option.isSome_iff_ne_none.mp hdata
  · obtain rfl : p = r := (Prod.mk.inj h).2
    exact ⟨rfl, rfl, fun _ _ => rfl, (and_iff_left (not_lt.mp hgrow)).symm⟩

theorem appendData_adopts (startPos : ℕ) (h : (appendData env src offset len startPos r).1 = .ok) :
    ∃ capacity, (appendData env src offset len startPos r).2 =
      (adoptObjects env (movedObjects src offset len startPos) (copied src offset len capacity r)).2 := by
  rw [appendData_eq_ite] at h ⊢
  dsimp only at h ⊢
  split_ifs at h ⊢ with hnil
  · exact ⟨_, by rw [hnil]; rfl⟩
  · exact ⟨_, rfl⟩
  · exact ⟨_, rfl⟩

theorem dataFrom_eq (src : Parcel) (offset i : ℕ) : dataFrom src offset i = src.memory (offset + i) := by
  unfold dataFrom memory
  cases src.mData <;> rfl

theorem sameRange_memcpy (mem : Memory) (src : Parcel) (pos offset len : ℕ) :
    Memory.SameRange len (Memory.memcpy mem pos (dataFrom src offset) len) pos src.memory offset := by
  intro i hi
  simp [Memory.memcpy, hi, dataFrom_eq]

/-- The range in the destination after the file descriptors are duplicated there. -/
theorem sameRange_adopted (mem : Memory) (hentries : ∀ off ∈ objectsBetween src.mObjects offset len,
      LiesIn offset len off ∧ movedTo offset pos off = pos + (off - offset)) :
    Memory.SameRange len
      (duplicates env (movedObjects src offset len pos) (Memory.memcpy mem pos (dataFrom src offset) len)) pos
      (duplicates env (objectsBetween src.mObjects offset len) src.memory) offset := by
  have hmoved : movedObjects src offset len pos =
      (objectsBetween src.mObjects offset len).map fun off => pos + (off - offset) :=
    map_congr_left fun off hoff => (hentries off hoff).2
  rw [hmoved]
  exact sameRange_duplicates (sameRange_memcpy mem src pos offset len) fun off hoff => (hentries off hoff).1

theorem spliced_iff (hpos : p.mDataPos ≤ p.mDataSize) (hback : p.mData = none → p.mDataSize = 0) (hlen : 0 < len)
    (hr : roomToAppend env len p = (.ok, r)) (capacity : ℕ) : Spliced src offset len p
        (adoptObjects env (movedObjects src offset len p.mDataPos) (copied src offset len capacity r)).2 ↔
      Spliceable env src offset len p := by
  obtain ⟨hdata, hobj⟩ := adoptObjects_fields env (movedObjects src offset len p.mDataPos)
    (copied src offset len capacity r)
  obtain ⟨hqpos, hqsize⟩ := adoptObjects_counters env (movedObjects src offset len p.mDataPos)
    (copied src offset len capacity r)
  have hcopied : (copied src offset len capacity r).mObjects = p.mObjects := (roomToAppend_fields hr).1
  rw [hcopied] at hobj
  generalize (adoptObjects env (movedObjects src offset len p.mDataPos) (copied src offset len capacity r)).2 = q at *
  have hbyte (rmem : Memory) (hmem : r.mData = some rmem) (i : ℕ) : byteAt i q = some (duplicates env
      (movedObjects src offset len p.mDataPos) (Memory.memcpy rmem r.mDataPos (dataFrom src offset) len) i) := by
    simp [byteAt, hdata, copied, hmem]
  obtain ⟨hrpos, hrsize, hbytes, hrnull⟩ := roomToAppend_ready hr hpos hback
  constructor
  · intro hs
    have hsize := hs.size
    have hentries := movedObjects_eq_iff.mp (append_cancel_left (hobj.symm.trans hs.objects))
    have hatEnd : p.mDataPos = p.mDataSize := by
      rw [hqsize] at hsize
      simp only [copied, hrsize] at hsize
      omega
    cases hmem : r.mData with
    | none =>
      have hnull := hs.copied 0 hlen
      simp [byteAt, hdata, copied, hmem] at hnull
    | some rmem =>
      refine ⟨hatEnd, fun hnone => ?_, hentries, fun i hi => ?_⟩
      · have hsize := hback hnone
        have hfull : ¬ p.mDataSize + len ≤ p.mDataCapacity := fun hcap => by simpa [hmem] using hrnull.mpr ⟨hnone, hcap⟩
        omega
      · have hstored := hs.copied i hi
        rw [hbyte rmem hmem, hrpos, dataFrom_eq, Option.some.injEq] at hstored
        exact (sameRange_adopted rmem hentries i hi).symm.trans hstored
  · intro hs
    have hatEnd := hs.atEnd
    cases hmem : r.mData with
    | none =>
      obtain ⟨hnone, hcap⟩ := hrnull.mp hmem
      have hroom := hs.backed hnone
      have hsize := hback hnone
      omega
    | some rmem =>
      refine ⟨fun i hi => ?_, fun i hi hout => ?_, ?_, ?_, ?_⟩
      · rw [hbyte rmem hmem, hrpos, dataFrom_eq, sameRange_adopted rmem hs.entries i hi, hs.descriptors i hi]
      · have hbefore : i < p.mDataPos := by
          have hin := hi.1
          omega
        have hmoved : ∀ off ∈ movedObjects src offset len p.mDataPos, i < off := by
          intro off hoff
          obtain ⟨o, ho, rfl⟩ := mem_map.mp hoff
          rw [(hs.entries o ho).2]
          omega
        rw [hbyte rmem hmem, duplicates_before hmoved, hrpos, ← hbytes i hi, byteAt, hmem, Option.map_some]
        exact congrArg some (if_neg (by omega))
      · rw [hqsize]
        simp only [copied, hrsize]
        omega
      · rw [hqpos]
        simp only [copied, hrpos]
      · rw [hobj, movedObjects_eq_iff.mpr hs.entries]

theorem Spliced.of_empty (src : Parcel) (offset : ℕ) (hpos : p.mDataPos ≤ p.mDataSize) : Spliced src offset 0 p p := by
  refine ⟨fun i hi => absurd hi (Nat.not_lt_zero i), fun _ _ _ => rfl, (max_eq_left hpos).symm, rfl, ?_⟩
  have hnone : src.mObjects.filter (fun off => LiesIn offset 0 off) = [] := by
    refine filter_eq_nil_iff.mpr fun off _ hin => ?_
    obtain ⟨hle, hend⟩ := of_decide_eq_true hin
    unfold sizeofFlatBinderObject at hend
    omega
  rw [hnone]
  exact (append_nil _).symm

/-- A successful `appendFrom` is a splice at the end of the data only. -/
theorem appendFrom_spliced_iff (hsession : p.mSession = src.mSession) (hpos : p.mDataPos ≤ p.mDataSize)
    (hback : p.mData = none → p.mDataSize = 0) (hrange : offset + len ≤ src.mDataSize)
    (hok : (appendFrom env src offset len p).1 = .ok) :
    Spliced src offset len p (appendFrom env src offset len p).2 ↔ len = 0 ∨ Spliceable env src offset len p := by
  rcases Nat.eq_zero_or_pos len with rfl | hlen
  · have hsame : appendFrom env src offset 0 p = (.ok, p) := by
      unfold appendFrom
      rw [if_neg (not_not.mpr hsession), if_pos rfl]
    rw [hsame]
    exact iff_of_true (.of_empty src offset hpos) (.inl rfl)
  · have hmax : len ≤ int32Max := by
      by_contra hmax
      unfold appendFrom at hok
      rw [if_neg (not_not.mpr hsession), if_neg hlen.ne', if_pos (not_le.mp hmax)] at hok
      simp at hok
    rw [appendFrom_eq hsession hlen hmax hrange] at hok ⊢
    cases hr : roomToAppend env len p with
    | mk st =>
      rw [hr] at hok
      obtain rfl : st = .ok := by
        cases st <;> first | rfl | exact hok
      obtain ⟨capacity, heq⟩ := appendData_adopts p.mDataPos hok
      rw [heq, spliced_iff hpos hback hlen hr]
      simp [hlen.ne']

/-- An object that is appended behind four bytes. -/
theorem appendFrom_spliced_object : let src := (writeObject zeroEnv ⟨binderTypeBinder, 0, 7, 8⟩ true {}).2
    let p := (writeInt32 zeroEnv 9 {}).2
    Spliced src 0 24 p (appendFrom zeroEnv src 0 24 p).2 := by
  intro src p
  have hsession : p.mSession = src.mSession := rfl
  have hpos : p.mDataPos ≤ p.mDataSize := by decide
  have hrange : 0 + 24 ≤ src.mDataSize := by decide
  have hok : (appendFrom zeroEnv src 0 24 p).1 = .ok := by decide
  have hbacked : p.mData.isSome := by decide
  have hbetween : objectsBetween src.mObjects 0 24 = [0] := by decide
  have hfd : ¬ FdAt src.memory 0 := by decide
  have hs : Spliceable zeroEnv src 0 24 p := by
    refine ⟨by decide, fun hnone => by simp [hnone] at hbacked, by decide, fun i _ => ?_⟩
    simp only [hbetween, duplicates, foldl_cons, foldl_nil, duplicate, if_neg hfd]
  exact (appendFrom_spliced_iff hsession hpos (fun hnone => by simp [hnone] at hbacked) hrange hok).mpr (.inr hs)

/-- Four bytes put over the first of eight make them twelve. -/
theorem appendFrom_extends_overwritten : let src := (writeInt32 zeroEnv 9 {}).2
    let p := (setDataPosition 0 (writeInt64 zeroEnv 5 {}).2).getD {}
    p.mSession = src.mSession ∧ p.mDataPos ≤ p.mDataSize ∧ p.mData.isSome ∧ 0 + 4 ≤ src.mDataSize ∧
      (appendFrom zeroEnv src 0 4 p).1 = .ok ∧ (appendFrom zeroEnv src 0 4 p).2.mDataSize = 12 ∧
      ¬ Spliced src 0 4 p (appendFrom zeroEnv src 0 4 p).2 := by
  refine ⟨rfl, by decide, by decide, by decide, by decide, by decide, fun hs => ?_⟩
  exact absurd hs.size (by decide)

end Binder.Parcel
