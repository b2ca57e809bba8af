import Binder.Lib.Transition
import Binder.Parcel.Incoming
import Binder.Parcel.Table

/-! The table of objects points at the objects that were put there. -/
namespace Binder.Parcel
open Binder.Lib List

variable {p q : Parcel}

def pushAllowFds (allowFds : Bool) (p : Parcel) : Parcel := if !allowFds then { p with mAllowFds := false } else p

def restoreAllowFds (lastValue : Bool) (p : Parcel) : Parcel := { p with mAllowFds := lastValue }

/-- The public operations on a parcel that was built in this process. -/
inductive Action
  | op (op : Op)
  | read (r : PlainRead)
  | readObject (nullMetaData : Bool)
  | pushAllowFds (allowFds : Bool)
  | restoreAllowFds (lastValue : Bool)
  | freeData

/-- `none` where the process aborts. -/
def Action.run (p : Parcel) : Action → Option Parcel
  | .op o => p.run o
  | .read r => r.run p
  | .readObject nullMetaData => after (Parcel.readObject nullMetaData) p
  | .pushAllowFds allowFds => some (Parcel.pushAllowFds allowFds p)
  | .restoreAllowFds lastValue => some (Parcel.restoreAllowFds lastValue p)
  | .freeData => some p.freeData

def Action.objects : Action → List FlatBinderObject
  | .op (.writeObject _ val _) => [val]
  | .op (.appendFrom env src offset len) => adoptedObjects env src offset len
  | _ => []

/-- A parcel with the objects that were ever recorded in it and where, the latest first. -/
structure Journal where
  parcel : Parcel := {}
  entries : List (ℕ × FlatBinderObject) := []

namespace Journal

variable {s s' : Journal} {a : Action}

def step (s : Journal) (a : Action) : Option Journal :=
  (a.run s.parcel).map fun q => ⟨q, added s.parcel q a.objects ++ s.entries⟩

/-- The operations that keep the table right. -/
def Keeps (s : Journal) : Action → Prop
  | .op (.setDataSize _ size) => s.parcel.SizeFits size
  | .op (.appendFrom _ src offset len) => AppendKeeps src offset len s.parcel
  | .op (.writeObject ..) => s.parcel.WriteKeeps sizeofFlatBinderObject
  | .op (.write _ _ len) | .op (.writeInplace _ len) => s.parcel.WriteKeeps (padSize len)
  | .op (.writeUnpadded _ _ len) => s.parcel.WriteKeeps len
  | .op (.writeAligned _ val) => s.parcel.WriteKeeps val.length
  | _ => True

instance (s : Journal) : (a : Action) → Decidable (s.Keeps a)
  | .op (.setDataSize _ size) => inferInstanceAs (Decidable (s.parcel.SizeFits size))
  | .op (.appendFrom _ src offset len) => inferInstanceAs (Decidable (AppendKeeps src offset len s.parcel))
  | .op (.writeObject ..) => inferInstanceAs (Decidable (s.parcel.WriteKeeps sizeofFlatBinderObject))
  | .op (.write _ _ len) | .op (.writeInplace _ len) => inferInstanceAs (Decidable (s.parcel.WriteKeeps (padSize len)))
  | .op (.writeUnpadded _ _ len) => inferInstanceAs (Decidable (s.parcel.WriteKeeps len))
  | .op (.writeAligned _ val) => inferInstanceAs (Decidable (s.parcel.WriteKeeps val.length))
  | .op (.setDataPosition _) | .op (.setDataCapacity ..) | .op (.setData ..) | .op .markSensitive | .read _
  | .readObject _ | .pushAllowFds _ | .restoreAllowFds _ | .freeData => .isTrue trivial

/-- Each entry of the table has the bytes of the object that was last recorded there. -/
structure Intact (s : Journal) : Prop where
  laid : Laid s.parcel
  recorded : ∀ o ∈ s.parcel.mObjects, ∃ obj, s.entries.lookup o = some obj ∧
    s.parcel.bytesAt o sizeofFlatBinderObject = obj.bytes

theorem Changed.of_no_objects {objs : List FlatBinderObject} (hobjs : objs = [])
    (h : ∃ dropped, Changed p dropped [] q) : ∃ dropped, Changed p dropped (added p q objs) q := by
  rwa [hobjs, added, zip_nil_right]

theorem run_changed (h : Laid s.parcel) (ha : s.Keeps a) (hq : a.run s.parcel = some q) :
    ∃ dropped, Changed s.parcel dropped (added s.parcel q a.objects) q := by
  have hplain {op : Op} {env : Env} {n : ℕ} (hop : op.plain? = some (env, n)) (hk : s.parcel.WriteKeeps n)
      (hq : Action.run s.parcel (.op op) = some q) : ∃ dropped, Changed s.parcel dropped [] q :=
    ⟨[], h.written hk (run_written hop hq)⟩
  have hflags {q : Parcel} (hobj : q.mObjects = s.parcel.mObjects) (hlaid : Laid q) (hdata : q.mData = s.parcel.mData)
      (hev : q.events = s.parcel.events) : Changed s.parcel [] [] q := by
    refine .quiet hlaid (.of_eq hobj) (fun o _ => ?_) (hev.trans (nil_append _).symm) ⟨rfl, rfl⟩
    unfold bytesAt
    rw [hdata]
  cases a with
  | op op =>
    cases op with
    | setDataPosition => exact Changed.of_no_objects rfl ⟨[], h.setDataPosition hq⟩
    | setDataSize env size =>
      cases hq
      exact Changed.of_no_objects rfl (h.sizeSet ha (setDataSize_cases env size _))
    | setDataCapacity env size =>
      cases hq
      exact Changed.of_no_objects rfl (h.capacitySet (setDataCapacity_cases env size _))
    | setData env buffer len =>
      cases hq
      exact Changed.of_no_objects rfl (h.dataSet (setData_cases env buffer len h.own))
    | appendFrom env src offset len =>
      cases hq
      exact ⟨[], h.appended ha (appendFrom_cases env src offset len _)⟩
    | write | writeInplace | writeUnpadded | writeAligned =>
      exact Changed.of_no_objects rfl (hplain rfl ha hq)
    | writeObject env val nullMetaData =>
      cases hq
      exact ⟨[], h.objectWritten ha (writeObject_cases env val nullMetaData _)⟩
    | markSensitive =>
      cases hq
      exact Changed.of_no_objects rfl ⟨[], hflags rfl { h with } rfl rfl⟩
  | read r => exact Changed.of_no_objects rfl ⟨[], h.perused (r.perused hq)⟩
  | readObject nullMetaData => exact Changed.of_no_objects rfl ⟨[], h.perused (readObject_perused nullMetaData hq)⟩
  | pushAllowFds =>
    cases hq
    refine Changed.of_no_objects rfl ⟨[], ?_⟩
    unfold Parcel.pushAllowFds
    split_ifs
    · exact hflags rfl { h with } rfl rfl
    · exact .refl h
  | restoreAllowFds =>
    cases hq
    exact Changed.of_no_objects rfl ⟨[], hflags rfl { h with } rfl rfl⟩
  | freeData =>
    cases hq
    exact Changed.of_no_objects rfl ⟨_, h.freeData⟩

theorem Intact.step (h : Intact s) (ha : s.Keeps a) (hs : s.step a = some s') : Intact s' := by
  obtain ⟨q, hq, rfl⟩ := Option.map_eq_some_iff.mp hs
  obtain ⟨dropped, hchanged⟩ := run_changed h.laid ha hq
  refine ⟨hchanged.laid, fun o ho => ?_⟩
  obtain ⟨kept, hold, hnew, hbytes⟩ := hchanged.table
  rw [lookup_append]
  cases hfound : (added s.parcel q a.objects).lookup o with
  | some obj =>
    obtain ⟨l₁, l₂, heq, -⟩ := lookup_eq_some_iff.mp hfound
    have hmem : (o, obj) ∈ added s.parcel q a.objects := by
      rw [heq]
      simp
    exact ⟨obj, rfl, hchanged.placed _ hmem⟩
  | none =>
    have hkept : o ∈ kept := by
      rcases mem_append.mp (hnew.mem_iff.mp ho) with hk | hk
      · exact hk
      · obtain ⟨e, he, rfl⟩ := mem_map.mp hk
        have hne := lookup_eq_none_iff.mp hfound e he
        simp at hne
    obtain ⟨obj, hlookup, hobj⟩ := h.recorded o (hold.mem_iff.mpr (mem_append_left _ hkept))
    exact ⟨obj, by simpa using hlookup, (hbytes o hkept).trans hobj⟩

theorem Intact.init : Intact {} := ⟨.init [], by simp⟩

/-- In every run whose operations keep the table right, the listed objects lie in the data, apart from
each other, and have the bytes of the objects that were recorded there. -/
theorem table_intact (s : Journal) (hs : Reachable step Keeps {} s) :
    (∀ o ∈ s.parcel.mObjects, o + sizeofFlatBinderObject ≤ s.parcel.mDataSize) ∧ s.parcel.mObjects.Pairwise Apart ∧
      ∀ o ∈ s.parcel.mObjects, ∃ obj, s.entries.lookup o = some obj ∧
        s.parcel.bytesAt o sizeofFlatBinderObject = obj.bytes := by
  have hintact : Intact s := hs.invariant Intact .init fun _ _ _ h ha hstep => h.step ha hstep
  exact ⟨hintact.laid.inside, hintact.laid.apart, hintact.recorded⟩

def fdSource : Parcel where
  mData := some (.ofBytes (FlatBinderObject.bytes ⟨binderTypeFd, 0, 5, 0⟩))
  mDataSize := 24
  mDataCapacity := 24
  mObjects := [0]

/-- A binder, and a file descriptor that is appended behind it. -/
theorem table_intact_appended : ∃ s : Journal, s.parcel.mObjects = [0, 28] ∧
    s.entries.lookup 28 = some ⟨binderTypeFd, 0, 9, 1⟩ ∧ s.parcel.mObjects.Pairwise Apart ∧
    ∀ o ∈ s.parcel.mObjects, ∃ obj, s.entries.lookup o = some obj ∧
      s.parcel.bytesAt o sizeofFlatBinderObject = obj.bytes := by
  obtain ⟨s, hs, hobjects, hfd⟩ := exists_reachable step Keeps {}
    [.op (.writeObject zeroEnv ⟨binderTypeBinder, 0, 7, 8⟩ false), .op (.writeAligned zeroEnv [1, 2, 3, 4]),
      .op (.appendFrom { zeroEnv with dup := fun _ => 9 } fdSource 0 24), .op (.writeAligned zeroEnv [1, 2, 3, 4]),
      .op (.setDataSize zeroEnv 52)]
    (fun s => s.parcel.mObjects = [0, 28] ∧ s.entries.lookup 28 = some ⟨binderTypeFd, 0, 9, 1⟩) (by decide)
  exact ⟨s, hobjects, hfd, (table_intact s hs).2⟩

/-- After a move back, a plain write goes into an object that stays listed. -/
theorem object_overwritten : ∃ s : Journal, Reachable step Free {} s ∧ 0 ∈ s.parcel.mObjects ∧
    ∃ obj, s.entries.lookup 0 = some obj ∧ s.parcel.bytesAt 0 sizeofFlatBinderObject ≠ obj.bytes := by
  obtain ⟨s, hs, hmem, hentry, hbytes⟩ := exists_reachable step Free {}
    [.op (.writeObject zeroEnv ⟨binderTypeBinder, 0, 7, 8⟩ false), .op (.setDataPosition 0),
      .op (.writeAligned zeroEnv [1, 2, 3, 4])]
    (fun s => 0 ∈ s.parcel.mObjects ∧ s.entries.lookup 0 = some ⟨binderTypeBinder, 0, 7, 8⟩ ∧
      s.parcel.bytesAt 0 sizeofFlatBinderObject ≠ FlatBinderObject.bytes ⟨binderTypeBinder, 0, 7, 8⟩) (by decide)
  exact ⟨s, hs, hmem, _, hentry, hbytes⟩

end Journal

end Binder.Parcel
