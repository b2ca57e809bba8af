import Binder.Parcel.Integrity

/-! The references and descriptors that a parcel takes are given back exactly once. -/
namespace Binder.Parcel
open Binder.Lib List

variable {p q : Parcel} {env : Env}

/-- A strong reference on a binder of this process or on the proxy of a handle. -/
inductive Ref
  | binder (cookie : ℕ)
  | proxy (handle : ℕ)
  deriving DecidableEq, Repr

namespace FlatBinderObject

variable {obj : FlatBinderObject} {mem : Memory} {off : ℕ}

/-- The reference that `acquire_object` takes and `release_object` gives back. -/
def reference (obj : FlatBinderObject) : Option Ref :=
  if obj.type = binderTypeBinder then if obj.binder ≠ 0 then some (.binder obj.cookie) else none
  else if obj.type = binderTypeHandle then some (.proxy obj.handle)
  else none

/-- The descriptor that `release_object` closes. -/
def descriptor (obj : FlatBinderObject) : Option ℕ :=
  if obj.type = binderTypeFd ∧ obj.cookie ≠ 0 then some obj.handle else none

/-- The fields are in the ranges of their types. -/
structure WellFormed (obj : FlatBinderObject) : Prop where
  type_lt : obj.type < 2 ^ 32
  flags_lt : obj.flags < 2 ^ 32
  binder_lt : obj.binder < 2 ^ 64
  cookie_lt : obj.cookie < 2 ^ 64

theorem load_of_bytes (h : obj.WellFormed) (hbytes : mem.load off sizeofFlatBinderObject = obj.bytes) :
    load mem off = obj := by
  rw [load_eq_append, bytes] at hbytes
  obtain ⟨hbytes, hcookie⟩ := append_inj hbytes (by simp)
  obtain ⟨hbytes, hbinder⟩ := append_inj hbytes (by simp)
  obtain ⟨htype, hflags⟩ := append_inj hbytes (by simp)
  rw [load, htype, hflags, hbinder, hcookie]
  simp only [leNat_leBytes]
  have hmod₄ {n : ℕ} (hn : n < 2 ^ 32) : n % 256 ^ 4 = n := by omega
  have hmod₈ {n : ℕ} (hn : n < 2 ^ 64) : n % 256 ^ 8 = n := by omega
  rw [hmod₄ h.type_lt, hmod₄ h.flags_lt, hmod₈ h.binder_lt, hmod₈ h.cookie_lt]

theorem wellFormed_load (mem : Memory) (off : ℕ) : (load mem off).WellFormed := by
  have hlt (o n : ℕ) : leNat (mem.load o n) < 256 ^ n := by
    have h := leNat_lt (mem.load o n)
    rwa [Memory.length_load] at h
  exact ⟨hlt off 4, hlt (off + 4) 4, hlt (off + 8) 8, hlt (off + 16) 8⟩

theorem WellFormed.adopted (h : obj.WellFormed) (env : Env) : (obj.adopted env).WellFormed := by
  unfold FlatBinderObject.adopted
  split_ifs
  · have hbinder := h.binder_lt
    refine ⟨h.type_lt, h.flags_lt, ?_, Nat.one_lt_two_pow (by decide)⟩
    dsimp only
    omega
  · exact h

theorem reference_eq_none (h : ¬ obj.IsRef) : obj.reference = none := by
  have hfd : obj.type = binderTypeFd := not_not.mp h
  unfold reference
  rw [hfd, if_neg (by decide), if_neg (by decide)]

end FlatBinderObject

theorem filterMap_reference (objs : List FlatBinderObject) :
    (objs.filter (·.IsRef)).filterMap (·.reference) = objs.filterMap (·.reference) := by
  rw [filterMap_filter]
  refine filterMap_congr fun obj _ => ?_
  by_cases h : obj.IsRef
  · simp [h]
  · simp [h, FlatBinderObject.reference_eq_none h]

/-! ### The ledger -/

theorem objectsAt_append (p : Parcel) (l₁ l₂ : List ℕ) : p.objectsAt (l₁ ++ l₂) = p.objectsAt l₁ ++ p.objectsAt l₂ := by
  unfold objectsAt
  cases p.mData with
  | none => rfl
  | some => exact map_append

theorem objectsAt_perm (p : Parcel) {l₁ l₂ : List ℕ} (h : l₁.Perm l₂) : (p.objectsAt l₁).Perm (p.objectsAt l₂) := by
  unfold objectsAt
  cases p.mData with
  | none => exact .refl _
  | some => exact h.map _

theorem objectsAt_congr {l : List ℕ} (hp : l ≠ [] → p.mData ≠ none) (hq : l ≠ [] → q.mData ≠ none)
    (h : ∀ o ∈ l, q.bytesAt o sizeofFlatBinderObject = p.bytesAt o sizeofFlatBinderObject) :
    q.objectsAt l = p.objectsAt l := by
  by_cases hnil : l = []
  · rw [hnil, objectsAt_nil, objectsAt_nil]
  · obtain ⟨mem, hmem⟩ := Option.ne_none_iff_exists'.mp (hp hnil)
    obtain ⟨mem', hmem'⟩ := Option.ne_none_iff_exists'.mp (hq hnil)
    simp only [objectsAt, bytesAt, hmem, hmem', Option.elim_some] at h ⊢
    exact map_congr_left fun o ho => FlatBinderObject.load_congr (h o ho)

theorem objectsAt_entries {es : List (ℕ × FlatBinderObject)} (hdata : es ≠ [] → p.mData ≠ none)
    (hwf : ∀ e ∈ es, e.2.WellFormed) (h : ∀ e ∈ es, p.bytesAt e.1 sizeofFlatBinderObject = e.2.bytes) :
    p.objectsAt (es.map Prod.fst) = es.map Prod.snd := by
  by_cases hnil : es = []
  · rw [hnil]
    exact objectsAt_nil p
  · obtain ⟨mem, hmem⟩ := Option.ne_none_iff_exists'.mp (hdata hnil)
    simp only [objectsAt, bytesAt, hmem, Option.elim_some, map_map] at h ⊢
    exact map_congr_left fun e he => FlatBinderObject.load_of_bytes (hwf e he) (h e he)

/-- What a change gives back and keeps is what was there and what it adds. -/
theorem Changed.balance {dropped : List ℕ} {new : List (ℕ × FlatBinderObject)} (hp : Laid p) (h : Changed p dropped new q)
    (hwf : ∀ e ∈ new, e.2.WellFormed) :
    (releases q.events ++ q.objectsAt q.mObjects).Perm
      (new.map Prod.snd ++ (releases p.events ++ p.objectsAt p.mObjects)) := by
  obtain ⟨kept, hold, hnew, hbytes⟩ := h.table
  obtain ⟨es, hev, hrel, -⟩ := h.events
  have hkept : q.objectsAt kept = p.objectsAt kept := by
    refine objectsAt_congr (fun hne => ?_) (fun hne => ?_) hbytes
    · obtain ⟨o, ho⟩ := exists_mem_of_ne_nil _ hne
      obtain ⟨mem, hmem⟩ := hp.data_of_mem (hold.mem_iff.mpr (mem_append_left _ ho))
      simp [hmem]
    · obtain ⟨o, ho⟩ := exists_mem_of_ne_nil _ hne
      obtain ⟨mem, hmem⟩ := h.laid.data_of_mem (hnew.mem_iff.mpr (mem_append_left _ ho))
      simp [hmem]
  have hadded : q.objectsAt (new.map Prod.fst) = new.map Prod.snd := by
    refine objectsAt_entries (fun hne => ?_) hwf h.placed
    obtain ⟨e, he⟩ := exists_mem_of_ne_nil _ hne
    obtain ⟨mem, hmem⟩ := h.laid.data_of_mem (hnew.mem_iff.mpr (mem_append_right _ (mem_map_of_mem he)))
    simp [hmem]
  have hevents : (releases q.events).Perm (p.objectsAt dropped ++ releases p.events) := by
    rw [hev, releases_append]
    exact hrel.append_right _
  have hafter := objectsAt_perm q hnew
  have hbefore := objectsAt_perm p hold
  rw [objectsAt_append, hkept, hadded] at hafter
  rw [objectsAt_append] at hbefore
  rw [perm_iff_count]
  intro obj
  have hevents := hevents.count_eq obj
  have hafter := hafter.count_eq obj
  have hbefore := hbefore.count_eq obj
  simp only [count_append] at hevents hafter hbefore ⊢
  omega

namespace Journal

variable {s s' : Journal} {a : Action}

/-- Every object that was recorded is in the table or was released, and its reference was taken. -/
structure Balanced (s : Journal) : Prop where
  intact : s.Intact
  released : (releases s.parcel.events ++ s.parcel.objectsAt s.parcel.mObjects).Perm (s.entries.map Prod.snd)
  acquired : ((acquires s.parcel.events).filter (·.IsRef)).Perm ((s.entries.map Prod.snd).filter (·.IsRef))

theorem Balanced.init : Balanced {} := ⟨.init, by simp [releases, objectsAt], by simp [acquires]⟩

theorem Balanced.step (h : s.Balanced) (ha : s.Keeps a) (hwf : ∀ obj ∈ a.objects, obj.WellFormed)
    (hs : s.step a = some s') : s'.Balanced := by
  have hintact := h.intact.step ha hs
  obtain ⟨q, hq, rfl⟩ := Option.map_eq_some_iff.mp hs
  obtain ⟨dropped, hchanged⟩ := run_changed h.intact.laid ha hq
  obtain ⟨es, hev, -, hacq⟩ := hchanged.events
  have hnew : ∀ e ∈ added s.parcel q a.objects, e.2.WellFormed := fun e he => hwf _ (of_mem_zip he).2
  refine ⟨hintact, ?_, ?_⟩
  · dsimp only
    rw [map_append]
    exact (hchanged.balance h.intact.laid hnew).trans (h.released.append_left _)
  · rw [hev, acquires_append, filter_append, map_append, filter_append]
    exact hacq.append h.acquired

end Journal

/-! ### Destruction -/

theorem Journal.Balanced.destroyed {s : Journal} (h : s.Balanced) :
    (releases s.parcel.freeDataNoInit.events).Perm (s.entries.map Prod.snd) ∧
      ((acquires s.parcel.freeDataNoInit.events).filter (·.IsRef)).Perm ((s.entries.map Prod.snd).filter (·.IsRef)) := by
  obtain ⟨es, ⟨hrel, hacq⟩, hev⟩ := freeDataNoInit_events h.intact.laid.own
  rw [hev, releases_append, releases_append, hrel, releases_map_release, nil_append, acquires_append,
    acquires_append, hacq, acquires_map_release, nil_append, nil_append]
  exact ⟨perm_append_comm.trans h.released, h.acquired⟩

/-! ### Binders and file descriptors -/

/-- What a strong pointer to a binder can be: null, an object of this process given by the addresses of its
reference counts and of itself, a proxy, or a proxy of an RPC session. -/
inductive StrongBinder
  | null
  | inProcess (weakRefs cookie : BitVec 64)
  | remote (handle : BitVec 32)
  | rpc
  deriving DecidableEq

/-- The object of `flattenBinder`; `none` where the binder is refused. -/
def StrongBinder.flatten (flags : BitVec 32) : StrongBinder → Option FlatBinderObject
  | .null => some ⟨binderTypeBinder, flags.toNat, 0, 0⟩
  | .inProcess weakRefs cookie => some ⟨binderTypeBinder, flags.toNat, weakRefs.toNat, cookie.toNat⟩
  | .remote handle => some ⟨binderTypeHandle, flags.toNat, handle.toNat, 0⟩
  | .rpc => none

def fdObject (fd : BitVec 32) (takeOwnership : Bool) : FlatBinderObject :=
  ⟨binderTypeFd, 0x17f, fd.toNat, if takeOwnership then 1 else 0⟩

variable {b : StrongBinder} {flags : BitVec 32}

theorem StrongBinder.wellFormed {obj : FlatBinderObject} (h : b.flatten flags = some obj) : obj.WellFormed := by
  have hbinder : binderTypeBinder < 2 ^ 32 := by decide
  have hhandle : binderTypeHandle < 2 ^ 32 := by decide
  have hzero : 0 < 2 ^ 64 := by decide
  cases b with
  | null =>
    cases h
    exact ⟨hbinder, flags.isLt, hzero, hzero⟩
  | inProcess weakRefs cookie =>
    cases h
    exact ⟨hbinder, flags.isLt, weakRefs.isLt, cookie.isLt⟩
  | remote handle =>
    cases h
    have hlt : handle.toNat < 2 ^ 64 := handle.isLt.trans (by decide)
    exact ⟨hhandle, flags.isLt, hlt, hzero⟩
  | rpc => cases h

theorem wellFormed_fdObject (fd : BitVec 32) (takeOwnership : Bool) : (fdObject fd takeOwnership).WellFormed := by
  have htype : binderTypeFd < 2 ^ 32 := by decide
  have hflags : 0x17f < 2 ^ 32 := by decide
  have hlt : fd.toNat < 2 ^ 64 := fd.isLt.trans (by decide)
  have hcookie : (if takeOwnership then 1 else 0) < 2 ^ 64 := by
    cases takeOwnership <;> decide
  exact ⟨htype, hflags, hlt, hcookie⟩

theorem StrongBinder.descriptor_eq_none {obj : FlatBinderObject}
    (h : b.flatten flags = some obj) : obj.descriptor = none := by
  have hbinder : binderTypeBinder ≠ binderTypeFd := by decide
  have hhandle : binderTypeHandle ≠ binderTypeFd := by decide
  have htype : obj.type ≠ binderTypeFd := by
    cases b <;> cases h
    · exact hbinder
    · exact hbinder
    · exact hhandle
  unfold FlatBinderObject.descriptor
  rw [if_neg (fun h => htype h.1)]

theorem descriptor_fdObject (fd : BitVec 32) (takeOwnership : Bool) : (fdObject fd takeOwnership).descriptor =
    if takeOwnership then some fd.toNat else none := by
  have hfd : (fdObject fd takeOwnership).handle = fd.toNat := Nat.mod_eq_of_lt fd.isLt
  unfold FlatBinderObject.descriptor
  rw [hfd]
  cases takeOwnership <;> simp [fdObject]

/-- The operations on a parcel that is built in this process, with what the allocator and the kernel
answer. -/
inductive Transfer
  | writeStrongBinder (env env' : Env) (val : StrongBinder) (flags stability : BitVec 32)
  | writeFileDescriptor (env : Env) (fd : BitVec 32) (takeOwnership : Bool)
  | writeDupFileDescriptor (env : Env) (fd : BitVec 32)
  | write (op : Op)
  | setDataPosition (pos : ℕ)
  | setDataSize (env : Env) (size : ℕ)
  | appendFrom (env : Env) (src : Parcel) (offset len : ℕ)
  | setData (env : Env) (buffer : Memory) (len : ℕ)
  | freeData

/-- A parcel with its journal, the descriptors that were handed to it, and those that were closed without
being recorded. -/
structure Custody where
  journal : Journal := {}
  handed : List ℕ := []
  closed : List ℕ := []

namespace Custody

variable {s s' : Custody} {a : Action} {t : Transfer}

def act (s : Custody) (a : Action) (handed : List ℕ) : Option Custody :=
  (s.journal.step a).map fun j => { s with journal := j, handed := handed ++ s.handed }

/-- `none` where the process aborts, and for a `write` that is not one of plain data. -/
def step (s : Custody) : Transfer → Option Custody
  | .writeStrongBinder env env' val flags stability => match val.flatten flags with
    | none => some s
    | some obj => (s.act (.op (.writeObject env obj false)) []).bind fun s₁ =>
      if (writeObject env obj false s.journal.parcel).1 = .ok then
        s₁.act (.op (.writeAligned env' (leBytes 4 stability.toNat))) []
      else some s₁
  | .writeFileDescriptor env fd takeOwnership =>
    let st := (writeObject env (fdObject fd takeOwnership) true s.journal.parcel).1
    s.act (.op (.writeObject env (fdObject fd takeOwnership) true)) (if st = .ok ∧ takeOwnership then [fd.toNat] else [])
  | .writeDupFileDescriptor env fd =>
    let dupFd := BitVec.ofNat 32 (env.dup fd.toNat)
    if dupFd.toInt < 0 then some s
    else
      let st := (writeObject env (fdObject dupFd true) true s.journal.parcel).1
      (s.act (.op (.writeObject env (fdObject dupFd true) true)) [dupFd.toNat]).map fun s₁ =>
        if st = .ok then s₁ else { s₁ with closed := dupFd.toNat :: s₁.closed }
  | .write op => op.plain?.bind fun _ => s.act (.op op) []
  | .setDataPosition pos => s.act (.op (.setDataPosition pos)) []
  | .setDataSize env size => s.act (.op (.setDataSize env size)) []
  | .appendFrom env src offset len =>
    let q := (Parcel.appendFrom env src offset len s.journal.parcel).2
    let objs := (added s.journal.parcel q (adoptedObjects env src offset len)).map Prod.snd
    s.act (.op (.appendFrom env src offset len)) (objs.filterMap (·.descriptor))
  | .setData env buffer len => s.act (.op (.setData env buffer len)) []
  | .freeData => s.act .freeData []

/-- The operations that keep the table right. A binder takes four more bytes than its object, and `setData`
looks at the listed objects after their block was reallocated. -/
def Keeps (s : Custody) : Transfer → Prop
  | .writeStrongBinder _ _ val _ _ => val = .rpc ∨ s.journal.parcel.Clear (sizeofFlatBinderObject + 4) ∧
      (s.journal.parcel.mData = none ∨ s.journal.parcel.Room sizeofFlatBinderObject)
  | .writeFileDescriptor .. | .writeDupFileDescriptor .. => s.journal.parcel.WriteKeeps sizeofFlatBinderObject
  | .write op => ∀ w ∈ op.plain?, s.journal.parcel.WriteKeeps w.2
  | .setDataSize _ size => s.journal.parcel.SizeFits size
  | .appendFrom _ src offset len => AppendKeeps src offset len s.journal.parcel
  | .setData .. => s.journal.parcel.mObjects = []
  | .setDataPosition _ | .freeData => True

instance (s : Custody) : (t : Transfer) → Decidable (s.Keeps t)
  | .writeStrongBinder .. => inferInstanceAs (Decidable (_ ∨ _ ∧ _))
  | .writeFileDescriptor .. | .writeDupFileDescriptor .. =>
    inferInstanceAs (Decidable (s.journal.parcel.WriteKeeps sizeofFlatBinderObject))
  | .write _ => inferInstanceAs (Decidable (∀ w ∈ _, _))
  | .setDataSize _ size => inferInstanceAs (Decidable (s.journal.parcel.SizeFits size))
  | .appendFrom _ src offset len => inferInstanceAs (Decidable (AppendKeeps src offset len s.journal.parcel))
  | .setData .. => inferInstanceAs (Decidable (s.journal.parcel.mObjects = []))
  | .setDataPosition _ | .freeData => .isTrue trivial

/-- The descriptors that were handed over are recorded or were closed. -/
structure Settled (s : Custody) : Prop where
  balanced : s.journal.Balanced
  handed : s.handed.Perm ((s.journal.entries.map Prod.snd).filterMap (·.descriptor) ++ s.closed)

variable {handed : List ℕ} {nullMetaData : Bool}

theorem act_run (hs : s.act a handed = some s') : a.run s.journal.parcel = some s'.journal.parcel := by
  obtain ⟨j, hj, rfl⟩ := Option.map_eq_some_iff.mp hs
  obtain ⟨q, hq, rfl⟩ := Option.map_eq_some_iff.mp hj
  exact hq

/-- The descriptors that are handed over are recorded, apart from those that are closed at once. -/
theorem Settled.act (closed : List ℕ) (h : s.Settled) (hs : s.act a handed = some s')
    (ha : s.journal.Keeps a) (hwf : ∀ obj ∈ a.objects, obj.WellFormed)
    (hhanded : handed = ((added s.journal.parcel s'.journal.parcel a.objects).map Prod.snd).filterMap (·.descriptor) ++
      closed) : Settled { s' with closed := closed ++ s'.closed } := by
  obtain ⟨j, hj, rfl⟩ := Option.map_eq_some_iff.mp hs
  refine ⟨h.balanced.step ha hwf hj, ?_⟩
  obtain ⟨q, hq, rfl⟩ := Option.map_eq_some_iff.mp hj
  rw [hhanded]
  rw [map_append, filterMap_append, append_assoc, append_assoc]
  refine List.Perm.append_left _ ?_
  rw [perm_iff_count]
  intro fd
  have hcount := h.handed.count_eq fd
  simp only [count_append] at hcount ⊢
  omega

/-- Room for the stability that follows the object of a binder. -/
theorem writeKeeps_stability {p q : Parcel} {val : FlatBinderObject} (h : Laid p)
    (hclear : p.Clear (sizeofFlatBinderObject + 4)) (hroom : p.mData = none ∨ p.Room sizeofFlatBinderObject)
    (hw : ObjectWritten env val nullMetaData p .ok q) : q.WriteKeeps 4 := by
  cases hw with
  | stayed _ hst => exact absurd rfl hst
  | placed capacity hr =>
    rename_i r
    have hext := h.extended (by decide) hroom hr
    refine ⟨.inr (.inr fun o ho => ?_), .inr (.inl ?_)⟩
    · change o + sizeofFlatBinderObject ≤ r.mDataPos + sizeofFlatBinderObject ∨
        r.mDataPos + sizeofFlatBinderObject + 4 ≤ o
      change o ∈ (if nullMetaData = true ∨ val.binder ≠ 0 then r.mObjects ++ [r.mDataPos] else r.mObjects) at ho
      have hold (ho : o ∈ r.mObjects) := hext.clear _ hclear o ho
      split_ifs at ho
      · rcases mem_append.mp ho with ho | ho
        · have hc := hold ho
          omega
        · rw [mem_singleton.mp ho]
          exact .inl le_rfl
      · have hc := hold ho
        omega
    · change r.mDataPos + sizeofFlatBinderObject + 4 ≤
        max r.mDataCapacity (max ((max r.mDataSize (r.mDataPos + sizeofFlatBinderObject) + 4) * 3 / 2) 128)
      omega

/-- An operation that hands nothing over. -/
theorem Settled.quiet (h : s.Settled) (hs : s.act a [] = some s') (ha : s.journal.Keeps a) (hobj : a.objects = []) :
    s'.Settled :=
  h.act [] hs ha (by simp [hobj]) (by simp [hobj, added])

/-- A `writeObject`: where the object is recorded, its descriptor is handed over. -/
theorem Settled.object {env : Env} {obj : FlatBinderObject} (closed : List ℕ)
    (h : s.Settled) (hs : s.act (.op (.writeObject env obj nullMetaData)) handed = some s')
    (hkeeps : s.journal.parcel.WriteKeeps sizeofFlatBinderObject) (hwf : obj.WellFormed)
    (hhanded : handed = (if (writeObject env obj nullMetaData s.journal.parcel).1 = .ok ∧
      (nullMetaData = true ∨ obj.binder ≠ 0) then obj.descriptor.toList else []) ++ closed) :
    Settled { s' with closed := closed ++ s'.closed } := by
  have hparcel : (writeObject env obj nullMetaData s.journal.parcel).2 = s'.journal.parcel :=
    Option.some.inj (act_run hs)
  have hadded := (writeObject_cases env obj nullMetaData s.journal.parcel).added
  rw [hparcel] at hadded
  refine h.act closed hs hkeeps (by simpa [Action.objects] using hwf) ?_
  rw [hhanded, Action.objects, hadded]
  split_ifs
  · cases hfd : obj.descriptor <;> simp [hfd]
  · rfl

theorem Settled.step (h : s.Settled) (ht : s.Keeps t) (hs : s.step t = some s') : s'.Settled := by
  have hlaid := h.balanced.intact.laid
  cases t with
  | writeStrongBinder env _ val flags =>
    simp only [Custody.step] at hs
    cases hflat : val.flatten flags with
    | none =>
      rw [hflat] at hs
      cases hs
      exact h
    | some obj =>
      rw [hflat] at hs
      obtain ⟨s₁, hact, hrest⟩ := Option.bind_eq_some_iff.mp hs
      have hne : val ≠ .rpc := by
        rintro rfl
        cases hflat
      obtain ⟨hclear, hroom⟩ := ht.resolve_left hne
      have hshort : s.journal.parcel.Clear sizeofFlatBinderObject := fun o ho => by
        have hc := hclear o ho
        omega
      have hfirst : s₁.Settled := by
        refine h.object [] hact ⟨.inr (.inr hshort), hroom⟩ (StrongBinder.wellFormed hflat) ?_
        rw [StrongBinder.descriptor_eq_none hflat]
        simp
      split_ifs at hrest with hok
      · have hparcel := Option.some.inj (act_run hact)
        have hw := writeObject_cases env obj false s.journal.parcel
        rw [hok, hparcel] at hw
        refine hfirst.quiet hrest ?_ rfl
        exact writeKeeps_stability hlaid hclear hroom hw
      · cases hrest
        exact hfirst
  | writeFileDescriptor _ fd takeOwnership =>
    refine h.object [] hs ht (wellFormed_fdObject fd takeOwnership) ?_
    cases takeOwnership <;> simp [descriptor_fdObject]
  | writeDupFileDescriptor =>
    simp only [Custody.step] at hs
    split_ifs at hs with hfail hok
    · cases hs
      exact h
    · obtain ⟨s₁, hact, rfl⟩ := Option.map_eq_some_iff.mp hs
      refine h.object [] hact ht (wellFormed_fdObject _ true) ?_
      simp [hok, descriptor_fdObject]
    · obtain ⟨s₁, hact, rfl⟩ := Option.map_eq_some_iff.mp hs
      refine h.object [_] hact ht (wellFormed_fdObject _ true) ?_
      simp [hok]
  | write op =>
    obtain ⟨w, hop, hact⟩ := Option.bind_eq_some_iff.mp hs
    have hkeeps := ht w hop
    cases op with
    | write | writeInplace | writeUnpadded | writeAligned =>
      cases hop
      exact h.quiet hact hkeeps rfl
    | _ => cases hop
  | setDataPosition => exact h.quiet hs trivial rfl
  | setDataSize => exact h.quiet hs ht rfl
  | appendFrom env src offset len =>
    have hparcel : (Parcel.appendFrom env src offset len s.journal.parcel).2 = s'.journal.parcel :=
      Option.some.inj (act_run hs)
    refine h.act [] hs ht (fun obj hobj => ?_) ?_
    · obtain ⟨off, -, rfl⟩ := mem_map.mp hobj
      exact (FlatBinderObject.wellFormed_load _ off).adopted env
    · rw [append_nil, hparcel]
      rfl
  | setData | freeData => exact h.quiet hs trivial rfl

theorem Settled.init : Settled {} := ⟨.init, .refl _⟩

/-- In every run whose operations keep the table right, and with the destructor at its end, the references
that were taken are released and the descriptors that were handed over are closed, each exactly once. -/
theorem references_balanced (s : Custody) (hs : Reachable step Keeps {} s) :
    ((acquires s.journal.parcel.freeDataNoInit.events).filterMap (·.reference)).Perm
        ((releases s.journal.parcel.freeDataNoInit.events).filterMap (·.reference)) ∧
      s.handed.Perm ((releases s.journal.parcel.freeDataNoInit.events).filterMap (·.descriptor) ++ s.closed) := by
  have hsettled : s.Settled := hs.invariant Settled .init fun _ _ _ h ht hstep => h.step ht hstep
  obtain ⟨hreleased, hacquired⟩ := hsettled.balanced.destroyed
  constructor
  · have hrefs := hacquired.filterMap (·.reference)
    rw [filterMap_reference, filterMap_reference] at hrefs
    exact hrefs.trans (hreleased.filterMap _).symm
  · exact hsettled.handed.trans ((hreleased.filterMap _).symm.append_right _)

/-- Two binders, one of them dropped by `setDataSize`, and two descriptors, one of them not owned. -/
theorem references_balanced_example : ∃ s : Custody, s.handed = [9] ∧
    (acquires s.journal.parcel.freeDataNoInit.events).filterMap (·.reference) = [.proxy 3, .binder 8] ∧
    [Ref.proxy 3, .binder 8].Perm ((releases s.journal.parcel.freeDataNoInit.events).filterMap (·.reference)) ∧
    [9].Perm ((releases s.journal.parcel.freeDataNoInit.events).filterMap (·.descriptor) ++ s.closed) := by
  obtain ⟨s, hs, hhanded, hacquired⟩ := exists_reachable step Keeps {}
    [.writeStrongBinder zeroEnv zeroEnv (.inProcess 7 8) 0 12, .writeFileDescriptor zeroEnv 4 false,
      .writeDupFileDescriptor { zeroEnv with dup := fun _ => 9 } 4, .writeStrongBinder zeroEnv zeroEnv (.remote 3) 0 12,
      .setDataSize zeroEnv 76]
    (fun s => s.handed = [9] ∧
      (acquires s.journal.parcel.freeDataNoInit.events).filterMap (·.reference) = [.proxy 3, .binder 8]) (by decide)
  obtain ⟨hrefs, hfds⟩ := references_balanced s hs
  rw [hacquired] at hrefs
  rw [hhanded] at hfds
  exact ⟨s, hhanded, hacquired, hrefs, hfds⟩

/-- A binder that is written over another one is released twice, and the other one never. -/
theorem reference_overwritten : ∃ s : Custody, Reachable step Free {} s ∧
    (acquires s.journal.parcel.freeDataNoInit.events).filterMap (·.reference) = [.binder 6, .binder 8] ∧
    (releases s.journal.parcel.freeDataNoInit.events).filterMap (·.reference) = [.binder 6, .binder 6] :=
  exists_reachable step Free {}
    [.writeStrongBinder zeroEnv zeroEnv (.inProcess 7 8) 0 12, .setDataPosition 0,
      .writeStrongBinder zeroEnv zeroEnv (.inProcess 5 6) 0 12] _ (by decide)

end Custody

end Binder.Parcel
