import Binder.ServiceManager.Registry
import Binder.Status

/-! The client side of registrations for notifications, composed with service manager. Each call holds the lock of
the client's map to its end, and calls service manager synchronously. -/
namespace Binder

open Lib ServiceManager List

/-- `forwards` tells to which local callback a waiter forwards; waiters are numbered from `made` on. -/
structure ServiceManagerShim where
  mNameToRegistrationCallback : OrdMap ServiceName (List (ℕ × IBinder)) := .empty
  mTheRealServiceManager : ServiceManager
  forwards : IBinder → Option ℕ := fun _ => none
  made : IBinder

namespace ServiceManagerShim

variable {s s' : ServiceManagerShim} {env : Env} {name : ServiceName} {cb : ℕ} {sm : ServiceManager}

/-- The callbacks that service manager holds already have smaller numbers than the waiters to come. -/
def start (sm : ServiceManager) : ServiceManagerShim where
  mTheRealServiceManager := sm
  made := (sm.mNameToRegistrationCallback.entries.flatMap fun e => e.2.filterMap (·.callback)).foldr max 0 + 1

def registrations (s : ServiceManagerShim) (name : ServiceName) : List (ℕ × IBinder) :=
  (s.mNameToRegistrationCallback.find? name).getD []

def registered (s : ServiceManagerShim) (sm : ServiceManager) (name : ServiceName) (cb : ℕ) : ServiceManagerShim :=
  { s with
    mTheRealServiceManager := sm
    mNameToRegistrationCallback := s.mNameToRegistrationCallback.insert name (s.registrations name ++ [(cb, s.made)])
    forwards := fun w => if w = s.made then some cb else s.forwards w
    made := s.made + 1 }

/-- `none` is a failed `CHECK` of service manager. -/
def registerForNotifications (s : ServiceManagerShim) (env : Env) (name : ServiceName) (cb : Option ℕ) :
    Option (Status × ServiceManagerShim) :=
  match cb with
  | none => some (.badValue, s)
  | some cb => do
    let registrationWaiter := s.made
    let (status, sm) ← s.mTheRealServiceManager.registerForNotifications env name (some registrationWaiter)
    if status.exception ≠ .none then some (.unknownError, { s with mTheRealServiceManager := sm })
    else some (.ok, s.registered sm name cb)

/-- The loop removes all registrations of the callback and hands out the waiter of the last one. -/
def removeRegistrationCallbackLocked (cb : ℕ) :
    List (ℕ × IBinder) → Option IBinder → List (ℕ × IBinder) × Option IBinder
  | [], waiter => ([], waiter)
  | lit :: rest, waiter =>
    if lit.1 = cb then removeRegistrationCallbackLocked cb rest (some lit.2)
    else
      let (rest, waiter) := removeRegistrationCallbackLocked cb rest waiter
      (lit :: rest, waiter)

/-- An emptied vector leaves the map. -/
def setRegistrations (s : ServiceManagerShim) (name : ServiceName) (rest : List (ℕ × IBinder)) : ServiceManagerShim :=
  { s with mNameToRegistrationCallback :=
    if rest.isEmpty then s.mNameToRegistrationCallback.erase name else s.mNameToRegistrationCallback.insert name rest }

def unregisterForNotifications (s : ServiceManagerShim) (env : Env) (name : ServiceName) (cb : Option ℕ) :
    Status × ServiceManagerShim :=
  match cb, s.mNameToRegistrationCallback.find? name with
  | none, _ => (.badValue, s)
  | some _, none => (.badValue, s)
  | some cb, some entries =>
    let (rest, registrationWaiter) := removeRegistrationCallbackLocked cb entries none
    let s := s.setRegistrations name rest
    match registrationWaiter with
    | none => (.badValue, s)
    | some waiter =>
      let (status, sm) := s.mTheRealServiceManager.unregisterForNotifications env name (some waiter)
      if status.exception ≠ .none then (.unknownError, { s with mTheRealServiceManager := sm })
      else (.ok, { s with mTheRealServiceManager := sm })

inductive Op
  | registerForNotifications (env : Env) (name : ServiceName) (cb : Option ℕ)
  | unregisterForNotifications (env : Env) (name : ServiceName) (cb : Option ℕ)

def step (s : ServiceManagerShim) : Op → Option ServiceManagerShim
  | .registerForNotifications env name cb => (s.registerForNotifications env name cb).map Prod.snd
  | .unregisterForNotifications env name cb => some (s.unregisterForNotifications env name cb).2

/-- How often the callback is registered under the name. -/
def times (s : ServiceManagerShim) (name : ServiceName) (cb : ℕ) : ℕ :=
  (s.registrations name).countP fun r => r.1 = cb

/-- A callback is unregistered that is not registered, or that is registered once by a caller who may still find the
service. -/
def OpOk (s : ServiceManagerShim) : Op → Prop
  | .registerForNotifications .. => True
  | .unregisterForNotifications env name cb => ∀ cb' ∈ cb, s.times name cb' = 0 ∨
      s.times name cb' = 1 ∧ env.canFind name = true

instance (s : ServiceManagerShim) : (op : Op) → Decidable (OpOk s op)
  | .registerForNotifications .. => .isTrue trivial
  | .unregisterForNotifications .. => inferInstanceAs (Decidable (∀ cb' ∈ _, _ ∨ _))

/-- Service manager tells nobody who forwards to the callback about the name. -/
def Silent (s : ServiceManagerShim) (name : ServiceName) (cb : ℕ) : Prop :=
  ∀ l ∈ s.mTheRealServiceManager.registrationCallbacks name, ∀ w ∈ l.callback, s.forwards w ≠ some cb

/-- What is expected of an `unregisterForNotifications`. -/
def Effective (s : ServiceManagerShim) (env : Env) (name : ServiceName) (cb : Option ℕ) : Prop :=
  let (status, s') := s.unregisterForNotifications env name cb
  (status = .ok → ∀ cb' ∈ cb, s'.Silent name cb') ∧
    (status ≠ .ok → s'.mNameToRegistrationCallback = s.mNameToRegistrationCallback ∧
      s'.mTheRealServiceManager.mNameToRegistrationCallback = s.mTheRealServiceManager.mNameToRegistrationCallback)

section Parts

theorem removeRegistrationCallbackLocked_eq (cb : ℕ) (entries : List (ℕ × IBinder)) (waiter : Option IBinder) :
    removeRegistrationCallbackLocked cb entries waiter = (entries.filter fun r => r.1 ≠ cb,
      ((entries.filter fun r => r.1 = cb).getLast?.map Prod.snd).or waiter) := by
  induction entries generalizing waiter with
  | nil => simp [removeRegistrationCallbackLocked]
  | cons lit entries ih =>
    unfold removeRegistrationCallbackLocked
    split_ifs with hlit
    · rw [ih]
      cases hlast : (entries.filter fun r => r.1 = cb).getLast? <;> simp [hlit, List.getLast?_cons, hlast]
    · rw [ih]
      simp [hlit]

theorem registrations_setRegistrations (s : ServiceManagerShim) (name name' : ServiceName)
    (rest : List (ℕ × IBinder)) :
    (s.setRegistrations name rest).registrations name' = if name' = name then rest else s.registrations name' := by
  unfold setRegistrations registrations
  split_ifs with hempty hname hname
  · simp [hname, isEmpty_iff.mp hempty]
  · simp [hname]
  · simp [hname]
  · simp [hname]

/-- Service manager adds the callback at the end of its list, or refuses and changes nothing. -/
theorem registers {callback : Option IBinder} {reply : Reply} {sm' : ServiceManager}
    (h : sm.registerForNotifications env name callback = some (reply, sm')) :
    (reply.exception ≠ .none ∧ sm' = sm) ∨ (reply.exception = .none ∧ ∀ name', sm'.registrationCallbacks name' =
      if name' = name then sm.registrationCallbacks name ++ [⟨callback, env.ctx.uid⟩]
      else sm.registrationCallbacks name') := by
  unfold ServiceManager.registerForNotifications at h
  split at h
  case h_1 e he =>
    cases h
    refine .inl ⟨?_, rfl⟩
    unfold registerForNotificationsError at he
    split_ifs at he <;> (cases he; simp)
  case h_2 =>
    have hset : ∀ name', (sm.setRegistrationCallbacks name
        (sm.registrationCallbacks name ++ [⟨callback, env.ctx.uid⟩])).registrationCallbacks name' =
        if name' = name then sm.registrationCallbacks name ++ [⟨callback, env.ctx.uid⟩]
        else sm.registrationCallbacks name' := by
      intro name'
      by_cases hname : name' = name
      · simp [ServiceManager.registrationCallbacks, setRegistrationCallbacks, hname]
      · simp [ServiceManager.registrationCallbacks, setRegistrationCallbacks, hname]
    dsimp only at h
    split at h
    · cases h
      exact .inr ⟨rfl, hset⟩
    · split_ifs at h
      cases h
      exact .inr ⟨rfl, hset⟩

/-- Service manager removes the callback wherever the name has it, for a caller who may find the service. -/
theorem unregisters {callback : Option IBinder} (hfind : env.canFind name = true)
    (hmem : ∃ l ∈ sm.registrationCallbacks name, l.callback = callback) :
    (sm.unregisterForNotifications env name callback).1.exception = .none ∧
      ∀ name', (sm.unregisterForNotifications env name callback).2.registrationCallbacks name' =
        if name' = name then (sm.registrationCallbacks name).filter fun l => l.callback ≠ callback
        else sm.registrationCallbacks name' := by
  obtain ⟨l, hl, hcallback⟩ := hmem
  unfold ServiceManager.registrationCallbacks at hl
  unfold ServiceManager.unregisterForNotifications
  cases hlist : sm.mNameToRegistrationCallback.find? name with
  | none => simp [hlist] at hl
  | some listeners =>
    rw [hlist, Option.getD_some] at hl
    have hany : (listeners.any fun l => l.callback = callback) = true :=
      any_eq_true.mpr ⟨l, hl, decide_eq_true hcallback⟩
    simp only [hfind, hany, Bool.not_true, Bool.false_eq_true, if_false]
    refine ⟨rfl, fun name' => ?_⟩
    unfold removeRegistrationCallback dropCallback ServiceManager.registrationCallbacks
    dsimp only
    by_cases hname : name' = name
    · subst hname
      split <;> rename_i hrest
      · have hempty : removeCallback callback listeners = [] := by simpa using hrest
        simpa [hlist, removeCallback] using hempty
      · split_ifs at hrest
        cases hrest
        simp [hlist, setRegistrationCallbacks, removeCallback]
    · split <;> simp [setRegistrationCallbacks, hname]

theorem unregister_refused (hfind : env.canFind name = false) (callback : Option IBinder) :
    sm.unregisterForNotifications env name callback = (⟨.security, ""⟩, sm) := by
  simp [ServiceManager.unregisterForNotifications, hfind]

end Parts

/-- The local registrations are just the waiters that service manager holds for this process. -/
structure Tied (s : ServiceManagerShim) : Prop where
  held : ∀ name cb w, (cb, w) ∈ s.registrations name ↔ s.forwards w = some cb ∧
    ∃ l ∈ s.mTheRealServiceManager.registrationCallbacks name, l.callback = some w
  known : ∀ name, ∀ l ∈ s.mTheRealServiceManager.registrationCallbacks name, ∀ w, l.callback = some w → w < s.made
  forwards : ∀ w cb, s.forwards w = some cb → w < s.made
  nodup : ∀ name, ((s.registrations name).map Prod.snd).Nodup
  nonempty : ∀ name, s.mNameToRegistrationCallback.find? name ≠ some []

theorem le_foldr_max {l : List ℕ} {n : ℕ} (h : n ∈ l) : n ≤ l.foldr max 0 := by
  induction l with
  | nil => cases h
  | cons a l ih =>
    rcases mem_cons.mp h with rfl | h
    · exact le_max_left _ _
    · exact (ih h).trans (le_max_right _ _)

theorem tied_start (sm : ServiceManager) : Tied (start sm) := by
  constructor
  case held => simp [registrations, start]
  case forwards => simp [start]
  case nodup => simp [registrations, start]
  case nonempty => simp [start]
  case known =>
    intro name l hl w hw
    change l ∈ sm.registrationCallbacks name at hl
    unfold registrationCallbacks at hl
    cases hlist : sm.mNameToRegistrationCallback.find? name with
    | none => simp [hlist] at hl
    | some listeners =>
      rw [hlist, Option.getD_some] at hl
      apply Nat.lt_succ_of_le
      apply le_foldr_max
      apply mem_flatMap.mpr
      refine ⟨(name, listeners), OrdMap.find?_eq_some_iff.mp hlist, ?_⟩
      exact mem_filterMap.mpr ⟨l, hl, hw⟩

theorem registrations_registered (s : ServiceManagerShim) (sm : ServiceManager) (name name' : ServiceName) (cb : ℕ) :
    (s.registered sm name cb).registrations name' =
      if name' = name then s.registrations name ++ [(cb, s.made)] else s.registrations name' := by
  unfold registered registrations
  by_cases hname : name' = name
  · simp [hname]
  · simp [hname]

theorem Tied.registered (h : Tied s) (hsm : ∀ name', sm.registrationCallbacks name' =
      if name' = name then s.mTheRealServiceManager.registrationCallbacks name ++ [⟨some s.made, env.ctx.uid⟩]
      else s.mTheRealServiceManager.registrationCallbacks name') :
    Tied (s.registered sm name cb) := by
  have hnew : ∀ name', ∀ l ∈ s.mTheRealServiceManager.registrationCallbacks name', l.callback ≠ some s.made :=
    fun name' l hl hw => Nat.lt_irrefl _ (h.known name' l hl s.made hw)
  have hunknown : ∀ name' cb', (cb', s.made) ∉ s.registrations name' :=
    fun name' cb' hmem => Nat.lt_irrefl _ (h.forwards _ _ ((h.held name' cb' s.made).mp hmem).1)
  constructor
  case held =>
    intro name' cb' w
    have hold := h.held name' cb' w
    rw [registrations_registered]
    change _ ↔ (if w = s.made then some cb else s.forwards w) = some cb' ∧ ∃ l ∈ sm.registrationCallbacks name', _
    rw [hsm]
    by_cases hw : w = s.made
    · subst hw
      by_cases hname : name' = name
      · simp [hname, hunknown, eq_comm]
      · simp only [hname, if_false, hunknown, false_iff, not_and, not_exists]
        exact fun _ l hl hw => hnew name' l hl hw
    · by_cases hname : name' = name
      · subst hname
        simp [hw, Ne.symm hw, hold]
      · simpa [hname, hw] using hold
  case known =>
    intro name' l hl w hw
    change l ∈ sm.registrationCallbacks name' at hl
    rw [hsm] at hl
    split_ifs at hl with hname
    · rcases mem_append.mp hl with hl | hl
      · exact (h.known name l hl w hw).trans (Nat.lt_succ_self _)
      · cases mem_singleton.mp hl
        cases hw
        exact Nat.lt_succ_self _
    · exact (h.known name' l hl w hw).trans (Nat.lt_succ_self _)
  case forwards =>
    intro w cb' hw
    change (if w = s.made then some cb else s.forwards w) = some cb' at hw
    split_ifs at hw with hmade
    · exact hmade ▸ Nat.lt_succ_self _
    · exact (h.forwards w cb' hw).trans (Nat.lt_succ_self _)
  case nodup =>
    intro name'
    rw [registrations_registered]
    split_ifs
    · rw [map_append, nodup_append]
      refine ⟨h.nodup name, by simp, ?_⟩
      rintro w hw _ hlast rfl
      obtain ⟨⟨cb', w'⟩, hmem, rfl⟩ := mem_map.mp hw
      cases mem_singleton.mp hlast
      exact hunknown name cb' hmem
    · exact h.nodup name'
  case nonempty =>
    intro name'
    simp only [ServiceManagerShim.registered, OrdMap.find?_insert]
    split_ifs
    · simp
    · exact h.nonempty name'

section Unregister

variable {entries : List (ℕ × IBinder)} {w : IBinder}

theorem unregister_none (h : Tied s) (hnone : s.times name cb = 0) :
    s.unregisterForNotifications env name (some cb) = (.badValue, s) := by
  unfold unregisterForNotifications
  cases hfound : s.mNameToRegistrationCallback.find? name with
  | none => rfl
  | some entries =>
    have hother : ∀ r ∈ entries, r.1 ≠ cb := by
      have hcount := countP_eq_zero.mp hnone
      simpa [registrations, hfound] using hcount
    have hmatches : (entries.filter fun r => decide (r.1 = cb)) = [] := by
      simpa [filter_eq_nil_iff] using hother
    have hrest : (entries.filter fun r => decide (r.1 ≠ cb)) = entries := by
      simpa [filter_eq_self] using hother
    have hempty : entries.isEmpty = false := by
      cases entries with
      | nil => exact absurd hfound (h.nonempty name)
      | cons => rfl
    have hsame : s.setRegistrations name entries = s := by
      have hmap : s.mNameToRegistrationCallback.insert name entries = s.mNameToRegistrationCallback := by
        apply OrdMap.ext_find?
        intro k
        by_cases hk : k = name
        · simp [hk, hfound]
        · simp [hk]
      unfold setRegistrations
      rw [hempty, if_neg Bool.false_ne_true, hmap]
    dsimp only
    rw [removeRegistrationCallbackLocked_eq, hmatches, hrest, hsame]
    rfl

/-- What is left to do when the callback is registered, `w` being its last waiter. -/
theorem unregister_some (hfound : s.mNameToRegistrationCallback.find? name = some entries)
    (hlast : (entries.filter fun r => decide (r.1 = cb)).getLast? = some (cb, w)) :
    s.unregisterForNotifications env name (some cb) =
      let (status, sm) := s.mTheRealServiceManager.unregisterForNotifications env name (some w)
      (if status.exception ≠ .none then .unknownError else .ok,
        { s.setRegistrations name (entries.filter fun r => decide (r.1 ≠ cb)) with mTheRealServiceManager := sm }) := by
  have hsm (rest : List (ℕ × IBinder)) :
      (s.setRegistrations name rest).mTheRealServiceManager = s.mTheRealServiceManager := rfl
  unfold unregisterForNotifications
  simp only [hfound, removeRegistrationCallbackLocked_eq, hlast, Option.map_some, Option.some_or, hsm]
  split_ifs <;> rfl

theorem exists_last (hsome : s.times name cb ≠ 0) : ∃ entries w,
    s.mNameToRegistrationCallback.find? name = some entries ∧ s.registrations name = entries ∧
      (entries.filter fun r => decide (r.1 = cb)).getLast? = some (cb, w) := by
  cases hfound : s.mNameToRegistrationCallback.find? name with
  | none => simp [times, registrations, hfound] at hsome
  | some entries =>
    have hregs : s.registrations name = entries := by simp [registrations, hfound]
    have hne : (entries.filter fun r => decide (r.1 = cb)) ≠ [] := by
      intro hnil
      rw [times, hregs, countP_eq_length_filter, hnil] at hsome
      exact hsome rfl
    have hmem := getLast_mem hne
    have hcb : ((entries.filter fun r => decide (r.1 = cb)).getLast hne).1 = cb := by
      simpa using (mem_filter.mp hmem).2
    refine ⟨entries, ((entries.filter fun r => decide (r.1 = cb)).getLast hne).2, rfl, hregs, ?_⟩
    rw [List.getLast?_eq_some_getLast hne]
    exact congrArg some (Prod.ext hcb rfl)

/-- Two registrations of the callback have two waiters. -/
theorem exists_other (h : Tied s) (hregs : s.registrations name = entries) (htimes : 1 < s.times name cb)
    (hlast : (entries.filter fun r => decide (r.1 = cb)).getLast? = some (cb, w)) :
    ∃ w', (cb, w') ∈ entries ∧ w' ≠ w := by
  have hnodup : ((entries.filter fun r => decide (r.1 = cb)).map Prod.snd).Nodup :=
    (hregs ▸ h.nodup name).sublist (filter_sublist.map _)
  have hcb : ∀ r ∈ entries.filter fun r => decide (r.1 = cb), r ∈ entries ∧ r.1 = cb := by simp
  rw [times, hregs, countP_eq_length_filter] at htimes
  generalize (entries.filter fun r => decide (r.1 = cb)) = matched at *
  match matched with
  | [] | [_] => simp at htimes
  | ⟨cb', w'⟩ :: r :: rest =>
    obtain ⟨hmem, hfst⟩ := hcb _ mem_cons_self
    cases hfst
    refine ⟨w', hmem, fun heq => ?_⟩
    rw [map_cons, nodup_cons] at hnodup
    exact hnodup.1 (mem_map.mpr ⟨_, mem_of_getLast? hlast, heq.symm⟩)

/-- The callback's only registration is the last. -/
theorem eq_last (hregs : s.registrations name = entries) (htimes : s.times name cb = 1) {w' : IBinder}
    (hlast : (entries.filter fun r => decide (r.1 = cb)).getLast? = some (cb, w)) (hmem : (cb, w') ∈ entries) :
    w' = w := by
  have hmatched : (cb, w') ∈ entries.filter fun r => decide (r.1 = cb) := by simpa using hmem
  rw [times, hregs, countP_eq_length_filter] at htimes
  obtain ⟨r, hr⟩ := length_eq_one_iff.mp htimes
  rw [hr] at hlast hmatched
  cases hlast
  simpa using hmatched

theorem Tied.unregistered (h : Tied s) (hregs : s.registrations name = entries) (htimes : s.times name cb = 1)
    (hlast : (entries.filter fun r => decide (r.1 = cb)).getLast? = some (cb, w))
    (hsm : ∀ name', sm.registrationCallbacks name' =
      if name' = name then (s.mTheRealServiceManager.registrationCallbacks name).filter fun l => l.callback ≠ some w
      else s.mTheRealServiceManager.registrationCallbacks name') :
    Tied { s.setRegistrations name (entries.filter fun r => decide (r.1 ≠ cb)) with mTheRealServiceManager := sm } := by
  have hset (name' : ServiceName) : ServiceManagerShim.registrations
      { s.setRegistrations name (entries.filter fun r => decide (r.1 ≠ cb)) with mTheRealServiceManager := sm } name' =
      if name' = name then entries.filter fun r => decide (r.1 ≠ cb) else s.registrations name' :=
    registrations_setRegistrations ..
  have hw : s.forwards w = some cb := by
    have hmem := (mem_filter.mp (mem_of_getLast? hlast)).1
    exact ((h.held name cb w).mp (hregs ▸ hmem)).1
  have hsub (name' : ServiceName) : ∀ l ∈ sm.registrationCallbacks name',
      l ∈ s.mTheRealServiceManager.registrationCallbacks name' := by
    intro l hl
    rw [hsm] at hl
    split_ifs at hl with hname
    · exact hname ▸ mem_of_mem_filter hl
    · exact hl
  constructor
  case held =>
    intro name' cb' w'
    have hold := h.held name' cb' w'
    rw [hset]
    change _ ↔ s.forwards w' = some cb' ∧ ∃ l ∈ sm.registrationCallbacks name', _
    rw [hsm]
    by_cases hname : name' = name
    · subst hname
      rw [hregs] at hold
      simp only [if_true, mem_filter, decide_eq_true_eq, hold]
      constructor
      · rintro ⟨⟨hforwards, l, hl, hlw⟩, hne⟩
        refine ⟨hforwards, l, ⟨hl, fun heq => hne ?_⟩, hlw⟩
        cases hlw.symm.trans heq
        exact Option.some.inj (hforwards.symm.trans hw)
      · rintro ⟨hforwards, l, ⟨hl, hne⟩, hlw⟩
        refine ⟨⟨hforwards, l, hl, hlw⟩, fun heq => hne ?_⟩
        subst heq
        have hlast' := eq_last hregs htimes hlast (hold.mpr ⟨hforwards, l, hl, hlw⟩)
        rw [hlw, hlast']
    · simpa [hname] using hold
  case known => exact fun name' l hl => h.known name' l (hsub name' l hl)
  case forwards => exact h.forwards
  case nodup =>
    intro name'
    rw [hset]
    split_ifs
    · exact (hregs ▸ h.nodup name).sublist (filter_sublist.map _)
    · exact h.nodup name'
  case nonempty =>
    intro name'
    simp only [setRegistrations]
    split_ifs with hempty
    · by_cases hname : name' = name
      · simp [hname]
      · simpa [hname] using h.nonempty name'
    · by_cases hname : name' = name
      · simpa [hname] using hempty
      · simpa [hname] using h.nonempty name'

end Unregister

/-- The waiters of the local registrations are known to service manager. -/
theorem Tied.waiter (h : Tied s) {entries : List (ℕ × IBinder)} {w : IBinder} (hregs : s.registrations name = entries)
    (hlast : (entries.filter fun r => decide (r.1 = cb)).getLast? = some (cb, w)) :
    ∃ l ∈ s.mTheRealServiceManager.registrationCallbacks name, l.callback = some w := by
  have hmem := (mem_filter.mp (mem_of_getLast? hlast)).1
  exact ((h.held name cb w).mp (hregs ▸ hmem)).2

theorem not_effective_of_refused (hsome : s.times name cb ≠ 0) (hfind : env.canFind name = false) :
    ¬ s.Effective env name (some cb) := by
  obtain ⟨entries, w, hfound, hregs, hlast⟩ := exists_last hsome
  intro heffective
  unfold Effective at heffective
  rw [unregister_some hfound hlast, unregister_refused hfind] at heffective
  have hmap := (heffective.2 (by decide)).1
  have hsame : (s.setRegistrations name (entries.filter fun r => decide (r.1 ≠ cb))).registrations name =
      s.registrations name := congrArg (fun m => (OrdMap.find? m name).getD []) hmap
  rw [registrations_setRegistrations, if_pos rfl, hregs] at hsame
  have hmem := (mem_filter.mp (mem_of_getLast? hlast)).1
  rw [← hsame] at hmem
  simp at hmem

theorem effective_iff_once (h : Tied s) (hsome : s.times name cb ≠ 0) (hfind : env.canFind name = true) :
    s.Effective env name (some cb) ↔ s.times name cb = 1 := by
  obtain ⟨entries, w, hfound, hregs, hlast⟩ := exists_last hsome
  obtain ⟨hok, hsm⟩ := unregisters hfind (h.waiter hregs hlast)
  have hsilent : s.Effective env name (some cb) ↔
      ∀ l ∈ s.mTheRealServiceManager.registrationCallbacks name, l.callback ≠ some w →
        ∀ w', l.callback = some w' → s.forwards w' ≠ some cb := by
    unfold Effective
    rw [unregister_some hfound hlast]
    simp only [hok, Silent, hsm]
    simp [setRegistrations, Option.mem_def]
  rw [hsilent]
  constructor
  · intro hall
    by_contra hne
    obtain ⟨w', hmem, hother⟩ := exists_other h hregs (by omega) hlast
    obtain ⟨hforwards, l, hl, hlw⟩ := (h.held name cb w').mp (hregs ▸ hmem)
    refine hall l hl ?_ w' hlw hforwards
    rw [hlw]
    simpa using hother
  · intro htimes l hl hne w' hlw hforwards
    have hmem := (h.held name cb w').mpr ⟨hforwards, l, hl, hlw⟩
    rw [hregs] at hmem
    rw [hlw, eq_last hregs htimes hlast hmem] at hne
    exact hne rfl

theorem effective_iff (h : Tied s) (cb : Option ℕ) :
    s.Effective env name cb ↔ OpOk s (.unregisterForNotifications env name cb) := by
  cases cb with
  | none => simp [Effective, OpOk, unregisterForNotifications]
  | some cb =>
    simp only [OpOk, Option.mem_def, Option.some.injEq, forall_eq']
    by_cases hnone : s.times name cb = 0
    · simp [Effective, unregister_none h hnone, hnone]
    · cases hfind : env.canFind name with
      | false => simpa [hnone] using not_effective_of_refused hnone hfind
      | true => simpa [hnone] using effective_iff_once h hnone hfind

theorem Tied.step {op : Op} (h : Tied s) (hok : OpOk s op) (hs : step s op = some s') : Tied s' := by
  cases op with
  | registerForNotifications _ _ cb =>
    obtain ⟨⟨status, u⟩, hcall, hu⟩ := Option.map_eq_some_iff.mp hs
    cases hu
    cases cb with
    | none =>
      cases hcall
      exact h
    | some =>
      simp only [registerForNotifications, Option.bind_eq_bind] at hcall
      obtain ⟨⟨reply, sm⟩, hreply, hcall⟩ := Option.bind_eq_some_iff.mp hcall
      rcases registers hreply with ⟨hexception, rfl⟩ | ⟨hexception, hsm⟩
      · rw [if_pos hexception] at hcall
        cases hcall
        exact h
      · rw [if_neg (not_not.mpr hexception)] at hcall
        cases hcall
        exact h.registered hsm
  | unregisterForNotifications _ name cb =>
    cases hs
    cases cb with
    | none => exact h
    | some cb =>
      have hcases := hok cb rfl
      by_cases hnone : s.times name cb = 0
      · rw [unregister_none h hnone]
        exact h
      · have honce := hcases.resolve_left hnone
        obtain ⟨entries, w, hfound, hregs, hlast⟩ := exists_last hnone
        rw [unregister_some hfound hlast]
        exact h.unregistered hregs honce.1 hlast (unregisters honce.2 (h.waiter hregs hlast)).2

theorem tied_of_reachable (h : Reachable step OpOk (start sm) s) : Tied s :=
  h.invariant Tied (tied_start sm) fun _ _ _ ht hok hs => ht.step hok hs

/-- Unregistering does what is expected of it exactly if the callback is not registered more than once, and service
manager does not refuse to unregister it. -/
theorem unregister_effective (h : Reachable step OpOk (start sm) s) (env : Env) (name : ServiceName)
    (cb : Option ℕ) : s.Effective env name cb ↔ OpOk s (.unregisterForNotifications env name cb) :=
  effective_iff (tied_of_reachable h) cb

/-- One of two callbacks is registered twice, the other once: the other one is unregistered. -/
theorem unregister_effective_once : ∃ s, Reachable step OpOk (start .init) s ∧ s.times [97] 5 = 1 ∧
    s.times [97] 6 = 2 ∧ s.Effective (.granting 7 1000 1) [97] (some 5) := by
  obtain ⟨s, hs, honce, htwice⟩ := exists_reachable step OpOk (start .init)
    [.registerForNotifications (.granting 7 1000 1) [97] (some 6),
      .registerForNotifications (.granting 7 1000 1) [97] (some 5),
      .registerForNotifications (.granting 7 1000 1) [97] (some 6)]
    (fun s => s.times [97] 5 = 1 ∧ s.times [97] 6 = 2) (by decide +kernel)
  have hok : OpOk s (.unregisterForNotifications (.granting 7 1000 1) [97] (some 5)) := by
    rintro _ ⟨⟩
    exact .inr ⟨honce, rfl⟩
  exact ⟨s, hs, honce, htwice, (unregister_effective hs _ _ _).mpr hok⟩

/-- The callback is registered twice; unregistering it returns `OK` and leaves its first waiter. -/
theorem unregister_leaves_waiter : ∃ s, Reachable step Free (start .init) s ∧
    (s.unregisterForNotifications (.granting 7 1000 1) [97] (some 5)).1 = .ok ∧
    ¬ s.Effective (.granting 7 1000 1) [97] (some 5) := by
  obtain ⟨s, hs, hok, hforwards, hmem⟩ := exists_reachable step Free (start .init)
    [.registerForNotifications (.granting 7 1000 1) [97] (some 5),
      .registerForNotifications (.granting 7 1000 1) [97] (some 5)]
    (fun s =>
      let (status, s') := s.unregisterForNotifications (.granting 7 1000 1) [97] (some 5)
      status = .ok ∧ s'.forwards 1 = some 5 ∧ ⟨some 1, 1000⟩ ∈ s'.mTheRealServiceManager.registrationCallbacks [97])
    (by decide +kernel)
  refine ⟨s, hs, hok, fun heffective => ?_⟩
  exact heffective.1 hok 5 rfl _ hmem 1 rfl hforwards

end ServiceManagerShim

end Binder
