import Binder.Lib.Transition
import Binder.Parcel.Heap

/-! Which operations use an array of the parcel after it was given back. -/
namespace Binder.Parcel
open Binder.Lib List

namespace Heaped

variable {m : Moves} {env : Env} {t : Heaped} {f : ℕ → List Access}

def pointers (t : Heaped) : List ℕ := t.data.toList ++ t.objects.toList

/-- Nothing was used too late, and both arrays are still there. -/
def Live (t : Heaped) : Prop := Alive t.next t.trace t.pointers

variable {b n len offset : ℕ} {a : Access} {objects : Option ℕ} {src : Parcel} {t' : Heaped}

theorem mem_pointers_data (h : t.data = some b) : b ∈ t.pointers := by
  simp [pointers, h]

theorem mem_pointers_objects (h : t.objects = some b) : b ∈ t.pointers := by
  simp [pointers, h]

def Uses (f : ℕ → List Access) : Prop := ∀ b, ∀ a ∈ f b, a.block = b ∧ a.releases = false

theorem Live.through {ptr : Option ℕ} (h : t.Live) (hptr : ∀ b, ptr = some b → b ∈ t.pointers) (hf : Uses f) :
    (t.through ptr f).Live := by
  cases ptr with
  | none => exact h
  | some b =>
    refine Alive.uses h fun a ha => ?_
    obtain ⟨hblock, hrel⟩ := hf b a ha
    exact ⟨hblock ▸ hptr b rfl, hrel⟩

theorem Live.throughData (h : t.Live) (hf : Uses f) : (t.through t.data f).Live :=
  h.through (fun _ => mem_pointers_data) hf

theorem Live.throughObjects (h : t.Live) (hf : Uses f) : (t.through t.objects f).Live :=
  h.through (fun _ => mem_pointers_objects) hf

theorem Live.withParcel (h : t.Live) (p : Parcel) : (t.withParcel p).Live := h

theorem uses_load : Uses fun b => [.load b] := by simp [Uses, Access.block, Access.releases]

theorem uses_enter : Uses fun b => [.enter b] := by simp [Uses, Access.block, Access.releases]

theorem uses_store (off len : ℕ) : Uses fun b => [.store b off len] := by simp [Uses, Access.block, Access.releases]

theorem uses_realloc : Uses fun b => [.realloc b false] := by simp [Uses, Access.block, Access.releases]

theorem Live.dropTable (h : t.Live) (ho : t.objects = some a.block) :
    Alive t.next (a :: t.trace) t.data.toList := by
  refine Alive.drop (Alive.perm h ?_)
  rw [pointers, ho]
  exact (perm_append_singleton a.block t.data.toList).symm

theorem Live.dropData (h : t.Live) (hd : t.data = some a.block) : Alive t.next (a :: t.trace) t.objects.toList := by
  refine Alive.drop (Alive.perm h ?_)
  rw [pointers, hd]
  exact .rfl

/-! ### Room -/

section

variable (h : t.Live)
include h

theorem Live.reallocObjects (m : Moves) : (t.reallocObjects m).Live := by
  unfold Heaped.reallocObjects
  cases ho : t.objects with
  | none =>
    refine Alive.perm (Alive.alloc h) ?_
    simp [pointers, ho]
  | some b =>
    split_ifs
    · exact (h.dropTable (a := .realloc b true) ho).alloc.perm (perm_append_singleton _ _)
    · have huse := h.throughObjects uses_realloc
      rwa [Heaped.through, ho] at huse

theorem Live.freeObjects : t.freeObjects.Live := by
  unfold Heaped.freeObjects Heaped.through
  cases ho : t.objects with
  | none =>
    refine Alive.sublist h ?_
    simp [pointers, Heaped.log]
  | some b =>
    have hdrop := h.dropTable (a := .free b) ho
    simpa [Live, pointers, Heaped.log] using hdrop

theorem Live.dropObjects (m : Moves) (env : Env) (kept : List ℕ) : (t.dropObjects m env kept).Live := by
  have hload : ((t.through t.objects fun b => [.load b]).through t.data fun b => [.load b]).Live :=
    (h.throughObjects uses_load).throughData uses_load
  unfold Heaped.dropObjects
  split_ifs
  · exact hload.freeObjects
  · exact hload.reallocObjects m
  · exact hload.throughObjects uses_realloc
  · exact h

/-- The new pointer to the data, null where the old block may be gone. -/
theorem Live.reallocData (m : Moves) (env : Env) (n : ℕ) : Live { (t.reallocZeroFree m env n).2 with
      data := if (t.reallocZeroFree m env n).1.isSome || n = 0 then (t.reallocZeroFree m env n).1
        else (t.reallocZeroFree m env n).2.data } := by
  have hcases := reallocZeroFree_cases m env n t
  generalize t.reallocZeroFree m env n = r at hcases ⊢
  cases hcases with
  | failed =>
    refine Alive.sublist h ?_
    dsimp only [pointers]
    split_ifs
    · simp
    · exact List.Sublist.refl _
  | refused _ _ hd =>
    cases hn : decide (n = 0) with
    | true =>
      cases hm : m.data with
      | true =>
        exact h.dropData (a := .realloc _ true) hd
      | false =>
        have huse := h.throughData uses_realloc
        rw [Heaped.through, hd] at huse
        exact Alive.sublist huse (sublist_append_right _ _)
    | false =>
      have huse := h.throughData uses_realloc
      rw [Heaped.through, hd] at huse
      exact huse
  | first hd => exact Alive.perm (Alive.alloc h) (by simp [pointers, hd])
  | moved hd => exact (h.dropData (a := .realloc _ true) hd).alloc
  | @wiped b hd =>
    have hnew : Alive (t.next + 1) t.trace (b :: t.next :: t.objects.toList) := by
      refine (Alive.alloc h).perm ?_
      rw [pointers, hd]
      exact List.Perm.swap _ _ _
    have hload := hnew.use (a := .load b) mem_cons_self rfl
    have hcopy := hload.use (a := .copy t.next b (min t.parcel.mDataCapacity n))
      (mem_cons_of_mem b mem_cons_self) rfl
    have hwipe := hcopy.use (a := .wipe b t.parcel.mDataCapacity) mem_cons_self rfl
    exact hwipe.drop (a := .free b)
  | kept hd =>
    have huse := h.throughData uses_realloc
    rw [Heaped.through, hd] at huse
    simp only [Option.isSome_some, Bool.true_or, if_true]
    rw [← hd]
    exact huse

theorem Live.resizeOwn (m : Moves) (env : Env) (desired : ℕ) : (t.resizeOwn m env desired).2.Live := by
  unfold Heaped.resizeOwn
  by_cases hcap : desired > t.parcel.mDataCapacity
  · have hne : decide (desired = 0) = false := by simpa using Nat.ne_of_gt (Nat.zero_lt_of_lt hcap)
    have hnew := h.reallocData m env desired
    rw [hne, Bool.or_false] at hnew
    rw [if_pos hcap]
    exact hnew
  · rw [if_neg hcap]
    exact h

theorem Live.allocData (p : Parcel) : Live { t with data := some t.next, next := t.next + 1, parcel := p } := by
  refine (Alive.alloc h).sublist ?_
  exact List.Sublist.cons_cons _ (sublist_append_right _ _)

theorem Live.continueWrite (m : Moves) (env : Env) (desired : ℕ) : (t.continueWrite m env desired).2.Live := by
  unfold Heaped.continueWrite
  dsimp only
  generalize ht' : (if desired < t.parcel.mDataSize ∧ desired ≠ 0 ∧ t.parcel.mObjects ≠ [] then
    t.through t.objects fun b => [.load b] else t) = t'
  have h' : t'.Live := by
    rw [← ht']
    split_ifs
    · exact h.throughObjects uses_load
    · exact h
  split_ifs
  · exact h
  · exact (h'.dropObjects m env _).resizeOwn m env desired
  · exact h'.allocData _
  · exact h'

theorem Live.growData (m : Moves) (env : Env) (len : ℕ) : (t.growData m env len).2.Live := by
  unfold Heaped.growData
  dsimp only
  split_ifs
  · exact h
  · exact h
  · exact h
  · exact h
  · exact h.continueWrite m env _

theorem Live.withRoom (m : Moves) (env : Env) (n : ℕ) : (t.withRoom m env n).2.Live := by
  unfold Heaped.withRoom
  split_ifs
  · exact h
  · exact h.growData m env n

end

/-! ### New data -/

/-- `reallocZeroFree` gives the old block back. -/
def Frees (m : Moves) (env : Env) (n : ℕ) (t : Heaped) : Prop :=
  if t.parcel.mDeallocZero then (env.malloc n).isSome = true else m.data = true ∧ ((env.malloc n).isSome = true ∨ n = 0)

instance (m : Moves) (env : Env) (n : ℕ) (t : Heaped) : Decidable (t.Frees m env n) := by
  unfold Frees
  infer_instance

/-- Without a release the old pointer is good until the new one takes its place. -/
theorem Live.reallocData_kept (h : t.Live) (hfree : ¬ t.Frees m env n) : ∃ ptrs : List ℕ,
    Alive (t.reallocZeroFree m env n).2.next (t.reallocZeroFree m env n).2.trace ptrs ∧
      (t.reallocZeroFree m env n).2.pointers.Sublist ptrs ∧
      ((t.reallocZeroFree m env n).1.toList ++ (t.reallocZeroFree m env n).2.objects.toList).Sublist ptrs := by
  have hcases := reallocZeroFree_cases m env n t
  generalize t.reallocZeroFree m env n = r at hcases ⊢
  unfold Frees at hfree
  cases hcases with
  | failed => exact ⟨t.pointers, h, List.Sublist.refl _, sublist_append_right _ _⟩
  | @refused b hzero hnone hd =>
    have hrel : (decide (n = 0) && m.data) = false := by
      simp only [hzero, hnone] at hfree
      by_contra hne
      simp only [Bool.not_eq_false, Bool.and_eq_true, decide_eq_true_eq] at hne
      exact hfree ⟨hne.2, .inr hne.1⟩
    rw [hrel]
    have huse := h.throughData uses_realloc
    rw [Heaped.through, hd] at huse
    exact ⟨t.pointers, huse, List.Sublist.refl _, sublist_append_right _ _⟩
  | first =>
    refine ⟨t.next :: t.pointers, Alive.alloc h, sublist_cons_self _ _, ?_⟩
    exact List.Sublist.cons_cons _ (sublist_append_right _ _)
  | moved _ hsome hzero hmoves => simp [hzero, hsome, hmoves] at hfree
  | wiped _ hsome hzero => simp [hzero, hsome] at hfree
  | kept hd =>
    have huse := h.throughData uses_realloc
    rw [Heaped.through, hd] at huse
    refine ⟨t.pointers, huse, List.Sublist.refl _, ?_⟩
    rw [pointers, hd]
    exact List.Sublist.refl _

theorem releaseObjects_eq (t : Heaped) : ∃ as, t.releaseObjects = t.log as ∧
    ∀ a ∈ as, a.block ∈ t.pointers ∧ a.releases = false := by
  unfold releaseObjects
  split_ifs
  · exact ⟨[], rfl, by simp⟩
  · refine ⟨t.data.elim [] (fun b => [.load b]) ++ t.objects.elim [] (fun b => [.load b]), ?_, ?_⟩
    · simp [Heaped.through, Heaped.log]
    · intro a ha
      rcases mem_append.mp ha with ha | ha
      · cases hd : t.data with
        | none => simp [hd] at ha
        | some b =>
          obtain rfl : a = .load b := by simpa [hd] using ha
          exact ⟨mem_pointers_data hd, rfl⟩
      · cases ho : t.objects with
        | none => simp [ho] at ha
        | some b =>
          obtain rfl : a = .load b := by simpa [ho] using ha
          exact ⟨mem_pointers_objects ho, rfl⟩

/-- The objects are read through the old pointer, so it must still be good if there are any. -/
theorem Live.restarted (h : t.Live) (hk : t.parcel.mObjects = [] ∨ ¬ t.Frees m env n) :
    Live { (t.reallocZeroFree m env n).2.releaseObjects with
      data := if (t.reallocZeroFree m env n).1.isSome || n = 0 then (t.reallocZeroFree m env n).1
        else (t.reallocZeroFree m env n).2.data } := by
  rcases hk with hnil | hfree
  · have hsame : (t.reallocZeroFree m env n).2.releaseObjects = (t.reallocZeroFree m env n).2 := by
      rw [releaseObjects, reallocZeroFree_parcel, if_pos hnil]
    rw [hsame]
    exact h.reallocData m env n
  · obtain ⟨ptrs, halive, hold, hnew⟩ := h.reallocData_kept hfree
    obtain ⟨as, heq, has⟩ := releaseObjects_eq (t.reallocZeroFree m env n).2
    rw [heq]
    refine (halive.uses fun a ha => ⟨hold.subset (has a ha).1, (has a ha).2⟩).sublist ?_
    split_ifs
    · exact hnew
    · exact hold

theorem Live.restartWrite (h : t.Live) (hk : t.parcel.mObjects = [] ∨ ¬ t.Frees m env n) :
    (t.restartWrite m env n).2.Live := by
  unfold Heaped.restartWrite
  by_cases hmax : n > int32Max
  · rw [if_pos hmax]
    exact h
  · rw [if_neg hmax]
    dsimp only
    split_ifs with hfail hmoved
    · have hne : decide (n = 0) = false := by
        have := Nat.zero_lt_of_lt hfail.2
        simpa using Nat.ne_of_gt this
      have hnew := h.reallocData m env n
      rw [Option.isNone_iff_eq_none.mp hfail.1, hne] at hnew
      exact hnew
    · have hnew := h.restarted hk
      rw [if_pos hmoved] at hnew
      exact hnew.freeObjects
    · have hnew := h.restarted hk
      obtain ⟨as, heq, -⟩ := releaseObjects_eq (t.reallocZeroFree m env n).2
      rw [if_neg hmoved, heq] at hnew
      rw [heq]
      exact Live.freeObjects hnew

/-! ### Writes -/

theorem Live.put (h : t.Live) (n : ℕ) (p : Parcel) : (t.put n p).Live := h.throughData (uses_store _ n)

/-- An operation that goes on after a step that may fail. -/
theorem Live.andThen {x : Status × Heaped} {f : Heaped → Heaped} (hx : x.2.Live) (hf : ∀ t, t.Live → (f t).Live) :
    (match x with | (.ok, t) => f t | (_, t) => t).Live := by
  obtain ⟨st, t⟩ := x
  cases st with
  | ok => exact hf t hx
  | _ => exact hx

section

variable (h : t.Live)
include h

theorem Live.setDataSize (size : ℕ) : (t.setDataSize m env size).Live := by
  unfold Heaped.setDataSize
  split_ifs
  · exact h
  · exact (h.continueWrite m env size).andThen fun _ ht => ht

theorem Live.setDataCapacity (size : ℕ) : (t.setDataCapacity m env size).Live := by
  unfold Heaped.setDataCapacity
  split_ifs
  · exact h
  · exact h.continueWrite m env size
  · exact h

theorem Live.setData (buffer : Memory)
    (hk : t.parcel.mObjects = [] ∨ int32Max < len ∨ ¬ t.Frees m env len) : (t.setData m env buffer len).Live := by
  unfold Heaped.setData
  split_ifs with hmax
  · exact h
  · refine (h.restartWrite (hk.imp_right fun hk => hk.resolve_left hmax)).andThen fun t ht => ?_
    exact ht.throughData (uses_store 0 len)

theorem Live.writeUnpadded (data : Memory) (len : ℕ) : (t.writeUnpadded m env data len).Live := by
  unfold Heaped.writeUnpadded
  split_ifs
  · exact h
  · exact h
  · exact (h.withRoom m env len).andThen fun t ht => ht.put len _

theorem Live.writeAligned (val : List UInt8) : (t.writeAligned m env val).Live := by
  exact (h.withRoom m env val.length).andThen fun t ht => ht.put val.length _

theorem Live.writeInplace (len : ℕ) : (t.writeInplace m env len).2.Live := by
  unfold Heaped.writeInplace
  dsimp only
  split_ifs
  · exact h
  · exact h
  · have hroom := h.withRoom m env (padSize len)
    cases hr : t.withRoom m env (padSize len) with
    | mk st =>
      rw [hr] at hroom
      cases st with
      | ok => exact Live.put hroom (padSize len) _
      | _ => exact hroom

theorem Live.write (data : Option Memory) (len : ℕ) : (t.write m env data len).Live := by
  unfold Heaped.write
  split_ifs
  · exact h
  · have hres : (t.writeInplace m env len).2.Live := h.writeInplace len
    cases hr : t.writeInplace m env len with
    | mk d =>
      rw [hr] at hres
      cases d with
      | none => exact hres
      | some d =>
        cases data with
        | none => exact hres
        | some => exact Live.throughData hres (uses_store d len)

theorem Live.putObject (val : FlatBinderObject) (nullMetaData : Bool) : (t.putObject val nullMetaData).Live := by
  unfold Heaped.putObject
  dsimp only
  split_ifs
  · exact (h.put _ _).throughObjects uses_enter
  · exact h.put _ _

theorem Live.growObjects (n : ℕ) : (t.growObjects m env n).2.Live := by
  unfold Heaped.growObjects
  dsimp only
  split_ifs
  · exact h
  · exact h.reallocObjects m
  · exact h.throughObjects uses_realloc

theorem Live.writeObject (val : FlatBinderObject) (nullMetaData : Bool) :
    (t.writeObject m env val nullMetaData).Live := by
  refine (h.withRoom m env sizeofFlatBinderObject).andThen fun r hr => ?_
  split_ifs
  · exact hr.putObject val nullMetaData
  · have hgrown : (r.growObjects m env 2).2.Live := hr.growObjects 2
    cases hg : r.growObjects m env 2 with
    | mk ok =>
      rw [hg] at hgrown
      cases ok with
      | false => exact hgrown
      | true => exact Live.putObject hgrown val nullMetaData

end

/-! ### Appending -/

theorem Live.adoptObject {off : ℕ} (h : t.Live) (hobjs : ∀ b, objects = some b → b ∈ t.pointers) :
    (t.adoptObject env objects off).Live ∧ (t.adoptObject env objects off).pointers = t.pointers := by
  have hload := ((h.through hobjs uses_load).throughObjects uses_enter).throughData uses_load
  unfold Heaped.adoptObject
  dsimp only
  generalize (t.parcel.adoptObject env off).2 = p
  split_ifs
  · refine ⟨(hload.throughData ?_).withParcel p, rfl⟩
    simp [Uses, Access.block, Access.releases]
  · exact ⟨hload.withParcel p, rfl⟩

theorem Live.adoptObjects {offs : List ℕ} (h : t.Live)
    (hobjs : ∀ b, objects = some b → b ∈ t.pointers) : (t.adoptObjects env objects offs).Live := by
  induction offs generalizing t with
  | nil => exact h
  | cons off offs ih =>
    obtain ⟨hlive, hptrs⟩ := h.adoptObject hobjs
    refine ih hlive ?_
    rwa [hptrs]

theorem reallocObjects_pointers (hm : m.objects = false) : t.pointers ⊆ (t.reallocObjects m).pointers := by
  unfold Heaped.reallocObjects
  cases ho : t.objects with
  | none =>
    dsimp only [pointers]
    rw [ho]
    exact append_subset.mpr ⟨subset_append_left _ _, nil_subset _⟩
  | some =>
    dsimp only
    rw [if_neg (by simp [hm])]
    exact List.Subset.refl _

theorem growObjects_pointers (hkeep : m.objects = false ∨ env.growObjects = false) :
    t.pointers ⊆ (t.growObjects m env n).2.pointers := by
  unfold Heaped.growObjects
  dsimp only
  split_ifs with hover hgrow
  · exact List.Subset.refl _
  · exact reallocObjects_pointers (hkeep.resolve_right (by simp [hgrow]))
  · exact List.Subset.refl _

theorem reallocData_pointers (hfree : ¬ t.Frees m env n) : t.pointers ⊆
    Heaped.pointers { (t.reallocZeroFree m env n).2 with
      data := if (t.reallocZeroFree m env n).1.isSome then (t.reallocZeroFree m env n).1
        else (t.reallocZeroFree m env n).2.data } := by
  have hcases := reallocZeroFree_cases m env n t
  generalize t.reallocZeroFree m env n = r at hcases ⊢
  unfold Frees at hfree
  cases hcases with
  | failed | refused => exact List.Subset.refl _
  | first hd =>
    dsimp only [pointers]
    rw [hd]
    exact subset_append_right _ _
  | moved _ hsome hzero hmoves => simp [hzero, hsome, hmoves] at hfree
  | wiped _ hsome hzero => simp [hzero, hsome] at hfree
  | kept hd =>
    dsimp only [pointers, Heaped.log]
    rw [hd]
    exact List.Subset.refl _

theorem growData_eq (hdata : t.parcel.mData.isSome) :
    (t.growData m env n).2 = t ∨ (t.growData m env n).2 = (t.resizeOwn m env (t.parcel.wanted n)).2 := by
  unfold Heaped.growData
  dsimp only
  split_ifs with h₁ h₂ h₃ h₄
  · exact .inl rfl
  · exact .inl rfl
  · exact .inl rfl
  · exact .inl rfl
  · have hsize : t.parcel.mDataSize ≤ t.parcel.wanted n := by
      unfold wanted
      omega
    have hno : ¬ (t.parcel.wanted n < t.parcel.mDataSize ∧ t.parcel.wanted n ≠ 0 ∧ t.parcel.mObjects ≠ []) := by
      omega
    have hdrop : t.dropObjects m env t.parcel.mObjects = t := by
      rw [Heaped.dropObjects, if_neg (lt_irrefl _)]
    change (t.continueWrite m env (t.parcel.wanted n)).2 = t ∨ (t.continueWrite m env (t.parcel.wanted n)).2 = _
    unfold Heaped.continueWrite
    dsimp only
    rw [if_neg hno, keptObjects_of_le hsize, hdrop, if_pos hdata]
    split_ifs
    · exact .inl rfl
    · exact .inr rfl

theorem resizeOwn_pointers (hfree : ¬ t.Frees m env n) : t.pointers ⊆ (t.resizeOwn m env n).2.pointers := by
  unfold Heaped.resizeOwn
  by_cases hcap : n > t.parcel.mDataCapacity
  · rw [if_pos hcap]
    exact reallocData_pointers hfree
  · rw [if_neg hcap]
    exact List.Subset.refl _

theorem resizeOwn_table (hdata : t.parcel.mData.isSome) :
    (t.resizeOwn m env n).2.parcel.mObjects = t.parcel.mObjects ∧
      (t.resizeOwn m env n).2.parcel.mObjectsCapacity = t.parcel.mObjectsCapacity := by
  rw [(resizeOwn_parcel m env t n).2]
  have hcases : ResizedOwn env n t.parcel (t.parcel.resizeOwn env n).1 (t.parcel.resizeOwn env n).2 :=
    resizeOwn_cases hdata
  generalize (t.parcel.resizeOwn env n).1 = st at hcases
  generalize (t.parcel.resizeOwn env n).2 = q at hcases ⊢
  cases hcases <;> exact ⟨rfl, rfl⟩

/-- Growth that does not give the old block back keeps the pointers and the table. -/
theorem growData_kept (hdata : t.parcel.mData.isSome) (hfree : ¬ t.Frees m env (t.parcel.wanted n)) :
    t.pointers ⊆ (t.growData m env n).2.pointers ∧ (t.growData m env n).2.parcel.mObjects = t.parcel.mObjects ∧
      (t.growData m env n).2.parcel.mObjectsCapacity = t.parcel.mObjectsCapacity := by
  rcases growData_eq (m := m) hdata with heq | heq
  · rw [heq]
    exact ⟨List.Subset.refl _, rfl, rfl⟩
  · rw [heq]
    exact ⟨resizeOwn_pointers hfree, resizeOwn_table hdata⟩

theorem Live.appendData {data : Option ℕ} {startPos : ℕ} (h : t.Live)
    (hdata : ∀ b, data = some b → b ∈ t.pointers) (hobjs : ∀ b, objects = some b → b ∈ t.pointers)
    (htable : objects = none ∨ objectsBetween src.mObjects offset len = [] ∨
      (objectsBetween src.mObjects offset len).length + t.parcel.mObjects.length ≤ t.parcel.mObjectsCapacity ∨
      m.objects = false ∨ env.growObjects = false) :
    (t.appendData m env src data objects offset len startPos).Live := by
  have hput (p : Parcel) : ((t.through data fun b => [.load b]).put len p).Live :=
    (h.through hdata uses_load).put len p
  unfold Heaped.appendData
  dsimp only
  split_ifs with hnil hcap
  · exact hput _
  · generalize hr : (t.through data fun b => [.load b]).put len _ = r at hcap ⊢
    have hlive : r.Live := hr ▸ hput _
    have hptrs : r.pointers = t.pointers := by
      rw [← hr]
      rfl
    have hcap' : t.parcel.mObjectsCapacity < t.parcel.mObjects.length + (objectsBetween src.mObjects offset len).length := by
      rw [← hr, length_map] at hcap
      exact hcap
    generalize ((objectsBetween src.mObjects offset len).map (movedTo offset startPos)) = moved
    have hgrown : (r.growObjects m env moved.length).2.Live := hlive.growObjects _
    have hkept : ∀ b, objects = some b → b ∈ (r.growObjects m env moved.length).2.pointers := by
      rcases htable with hnone | hempty | hfits | hkeep
      · simp [hnone]
      · simp [hempty] at hnil
      · omega
      · intro b hb
        exact growObjects_pointers hkeep (hptrs ▸ hobjs b hb)
    cases hg : r.growObjects m env moved.length with
    | mk ok =>
      rw [hg] at hgrown hkept
      cases ok with
      | false => exact hgrown
      | true => exact Live.adoptObjects hgrown hkept
  · exact (hput _).adoptObjects hobjs

/-- What appending a parcel to itself needs: the data does not move while it grows, nor the table. -/
def SelfKeeps (m : Moves) (env : Env) (offset len : ℕ) (t : Heaped) : Prop :=
  let wanted := t.parcel.wanted len
  let moved := objectsBetween t.parcel.mObjects offset len
  len = 0 ∨ int32Max < len ∨ t.parcel.mDataSize < offset + len ∨ t.parcel.mData.isSome ∧
    (t.parcel.mDataSize + len ≤ t.parcel.mDataCapacity ∨ ¬ t.Frees m env wanted) ∧
    (moved = [] ∨ moved.length + t.parcel.mObjects.length ≤ t.parcel.mObjectsCapacity ∨ m.objects = false ∨
      env.growObjects = false)

instance (m : Moves) (env : Env) (offset len : ℕ) (t : Heaped) : Decidable (t.SelfKeeps m env offset len) := by
  unfold SelfKeeps
  infer_instance

theorem Live.appendFrom (h : t.Live) : (t.appendFrom m env src none none offset len).Live := by
  have hsame : (if src.mObjects = [] then t else t.through none fun b => [.load b]) = t := ite_self t
  unfold Heaped.appendFrom
  dsimp only
  rw [hsame]
  split_ifs
  · exact h
  · exact h
  · exact h
  · exact h
  · exact (h.growData m env len).andThen fun r hr => hr.appendData (by simp) (by simp) (.inl rfl)
  · exact h.appendData (by simp) (by simp) (.inl rfl)

theorem Live.appendSelf (h : t.Live) (hk : t.SelfKeeps m env offset len) :
    (t.appendFrom m env t.parcel t.data t.objects offset len).Live := by
  unfold Heaped.appendFrom
  dsimp only
  generalize ht' : (if t.parcel.mObjects = [] then t else t.through t.objects fun b => [.load b]) = t'
  have h' : t'.Live := by
    rw [← ht']
    split_ifs
    · exact h
    · exact h.throughObjects uses_load
  have hp : t'.parcel = t.parcel := by
    rw [← ht']
    split_ifs <;> rfl
  have hptrs : t'.pointers = t.pointers := by
    rw [← ht']
    split_ifs <;> rfl
  have hrest (hzero : ¬ len = 0) (hmax : ¬ len > int32Max) (hsrc : ¬ (offset > t.parcel.mDataSize ∨
      len > t.parcel.mDataSize ∨ offset + len > t.parcel.mDataSize)) :=
    ((hk.resolve_left hzero).resolve_left hmax).resolve_left fun hlt => hsrc (.inr (.inr hlt))
  split_ifs with hses hzero hmax hsrc hgrow
  · exact absurd rfl hses
  · exact h
  · exact h
  · exact h
  · obtain ⟨hdata, hkeep, htable⟩ := hrest hzero hmax hsrc
    rw [hp] at hgrow
    have hfree : ¬ t'.Frees m env (t'.parcel.wanted len) := by
      unfold Frees
      rw [hp]
      exact hkeep.resolve_left (by omega)
    obtain ⟨hsub, hobjs, hcap⟩ := growData_kept (hp ▸ hdata) hfree
    have hgrown := h'.growData m env len
    cases hg : t'.growData m env len with
    | mk st =>
      rw [hg] at hgrown hsub hobjs hcap
      cases st with
      | ok =>
        refine Live.appendData hgrown (fun b hb => ?_) (fun b hb => ?_) (.inr ?_)
        · exact hsub (hptrs ▸ mem_pointers_data hb)
        · exact hsub (hptrs ▸ mem_pointers_objects hb)
        · rw [hobjs, hcap, hp]
          exact htable
      | _ => exact hgrown
  · obtain ⟨hdata, hkeep, htable⟩ := hrest hzero hmax hsrc
    refine h'.appendData (fun b hb => ?_) (fun b hb => ?_) (.inr ?_)
    · rw [hptrs]
      exact mem_pointers_data hb
    · rw [hptrs]
      exact mem_pointers_objects hb
    · rw [hp]
      exact htable

/-! ### Runs -/

theorem Live.free_data (h : t.Live) :
    Alive t.next (t.through t.data fun b => [.free b]).trace t.objects.toList := by
  cases hd : t.data with
  | none =>
    refine Alive.sublist h ?_
    simp [pointers]
  | some b => exact h.dropData (a := .free b) hd

theorem Live.freeDataNoInit (h : t.Live) : Alive t.freeDataNoInit.next t.freeDataNoInit.trace [] := by
  have hrel : t.releaseObjects.Live := by
    obtain ⟨as, heq, has⟩ := releaseObjects_eq t
    rw [heq]
    exact Alive.uses h has
  unfold Heaped.freeDataNoInit
  dsimp only
  generalize hwipe : (if t.releaseObjects.parcel.mDeallocZero then t.releaseObjects.through t.releaseObjects.data
    fun b => [.wipe b t.releaseObjects.parcel.mDataSize] else t.releaseObjects) = r
  have hr : r.Live := by
    rw [← hwipe]
    split_ifs
    · refine hrel.throughData ?_
      simp [Uses, Access.block, Access.releases]
    · exact hrel
  have hfree := hr.free_data
  change Alive r.next ((r.through r.data fun b => [.free b]).through r.objects fun b => [.free b]).trace []
  cases ho : r.objects with
  | none =>
    rw [ho] at hfree
    exact hfree
  | some b =>
    rw [ho] at hfree
    exact hfree.drop (a := .free b)

/-- A destroyed parcel has no arrays. -/
def Intact (t : Heaped) : Prop := if t.destroyed then Sound t.trace else t.Live

theorem Live.run {op : Op} (h : t.Live) (hrun : t.run m op = some t')
    (hk : ∀ env buffer len, op = .setData env buffer len →
      t.parcel.mObjects = [] ∨ int32Max < len ∨ ¬ t.Frees m env len) : t'.Live := by
  cases op with
  | setDataPosition =>
    obtain ⟨p, -, rfl⟩ := Option.map_eq_some_iff.mp hrun
    exact h
  | setDataSize _ size =>
    cases hrun
    exact h.setDataSize size
  | setDataCapacity _ size =>
    cases hrun
    exact h.setDataCapacity size
  | setData env buffer len =>
    cases hrun
    exact h.setData buffer (hk env buffer len rfl)
  | appendFrom =>
    cases hrun
    exact h.appendFrom
  | write _ data len =>
    cases hrun
    exact h.write data len
  | writeInplace _ len =>
    cases hrun
    exact h.writeInplace len
  | writeUnpadded _ data len =>
    cases hrun
    exact h.writeUnpadded data len
  | writeAligned _ val =>
    simp only [Heaped.run] at hrun
    split_ifs at hrun
    cases hrun
    exact h.writeAligned val
  | writeObject _ val nullMetaData =>
    cases hrun
    exact h.writeObject val nullMetaData
  | markSensitive =>
    cases hrun
    exact h

/-- New data comes only where no object has to be read from a block that is gone, and a parcel is
appended to itself only where its arrays stay. -/
def Keeps (t : Heaped) : Action × Moves → Prop
  | (.op (.setData env _ len), m) => t.parcel.mObjects = [] ∨ int32Max < len ∨ ¬ t.Frees m env len
  | (.appendSelf env offset len, m) => t.SelfKeeps m env offset len
  | _ => True

instance (t : Heaped) (a : Action × Moves) : Decidable (t.Keeps a) := by
  induction a using Prod.casesOn with
  | mk a =>
    induction a using Action.casesOn with
    | op op => induction op using Op.casesOn <;> dsimp only [Keeps] <;> infer_instance
    | _ => dsimp only [Keeps]; infer_instance

theorem Intact.step {t : Heaped} {a : Action × Moves} (h : t.Intact) (hk : t.Keeps a) (hs : t.step a = some t') :
    t'.Intact := by
  obtain ⟨a, m⟩ := a
  unfold Heaped.step at hs
  split_ifs at hs with hdead
  have hlive : t.Live := by
    rwa [Intact, if_neg hdead] at h
  cases a with
  | op =>
    have hlive' : t'.Live := by
      refine hlive.run hs fun env buffer len hop => ?_
      subst hop
      exact hk
    unfold Intact
    split_ifs
    · exact hlive'.sound
    · exact hlive'
  | appendSelf =>
    cases hs
    have hlive' := hlive.appendSelf hk
    unfold Intact
    split_ifs
    · exact hlive'.sound
    · exact hlive'
  | freeData =>
    cases hs
    unfold Intact
    split_ifs
    · exact hlive.freeDataNoInit.sound
    · exact hlive.freeDataNoInit
  | destroy =>
    cases hs
    exact hlive.freeDataNoInit.sound

end Heaped

/-- In every run that keeps to the condition, no array of the parcel is used after it was given back. -/
theorem no_dangling_access (t : Heaped) (h : Reachable Heaped.step Heaped.Keeps {} t) :
    t.trace.Pairwise fun later earlier => earlier.releases = true → earlier.block ≠ later.block := by
  have hin : t.Intact := by
    refine h.invariant Heaped.Intact ?_ fun t a t' ht hk hs => ht.step hk hs
    exact Alive.init
  have hsound : Sound t.trace := by
    unfold Heaped.Intact at hin
    split_ifs at hin
    · exact hin
    · exact hin.sound
  refine hsound.imp fun hnot hrel hblock => ?_
  exact hnot ⟨hrel, hblock⟩

/-- A binder object, growth that moves the data, the parcel appended to itself, new data once the objects are
gone, and the end. -/
theorem no_dangling_access_example : ∃ t : Heaped, t.destroyed = true ∧ t.next = 4 ∧
    t.trace.Pairwise fun later earlier => earlier.releases = true → earlier.block ≠ later.block := by
  obtain ⟨t, ht, hdestroyed, hnext⟩ := exists_reachable Heaped.step Heaped.Keeps {}
    [(.op (.writeObject zeroEnv ⟨0, 0, 1, 0⟩ false), ⟨true, true⟩), (.op (.setDataCapacity zeroEnv 200), ⟨true, true⟩),
      (.appendSelf zeroEnv 0 24, ⟨true, true⟩), (.op (.setDataSize zeroEnv 0), ⟨true, true⟩),
      (.op (.setData zeroEnv (fun _ => 7) 4), ⟨true, true⟩), (.destroy, ⟨true, true⟩)]
    (fun t => t.destroyed = true ∧ t.next = 4) (by decide)
  exact ⟨t, hdestroyed, hnext, no_dangling_access t ht⟩

/-- `setData` reads the objects through the pointer that `realloc` gave back. -/
theorem objects_read_after_release : ∃ t : Heaped, Reachable Heaped.step Free {} t ∧
    ¬ t.trace.Pairwise fun later earlier => earlier.releases = true → earlier.block ≠ later.block :=
  exists_reachable Heaped.step Free {}
    [(.op (.writeObject zeroEnv ⟨0, 0, 1, 0⟩ false), ⟨true, true⟩),
      (.op (.setData zeroEnv (fun _ => 7) 4), ⟨true, true⟩)] _ (by decide)

end Binder.Parcel
