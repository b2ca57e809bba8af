import Binder.ServiceManager.Steps

/-! The maps stay well formed, so that no `CHECK` fails. -/
namespace Binder.ServiceManager

open Lib

variable {s s' : ServiceManager} {env : Env} {name : ServiceName}

theorem addServiceError_eq_none {binder : Option IBinder} (h : addServiceError env name binder = none) :
    binder ≠ none ∧ isValidServiceName name = true := by
  unfold addServiceError at h
  split_ifs at h with h₁ h₂ h₃ h₄ h₅ h₆
  exact ⟨h₃, by simpa using h₄⟩

variable {callback : Option IBinder} {service : Service} {r : Reply}

theorem registerForNotificationsError_eq_none
    (h : registerForNotificationsError env name callback = none) : callback ≠ none := by
  unfold registerForNotificationsError at h
  split_ifs at h with h₁ h₂ h₃ h₄
  exact h₃

theorem registerClientCallbackError_eq_none {service cb : Option IBinder}
    (h : s.registerClientCallbackError env name service cb = none) :
    cb ≠ none ∧ ∃ entry, s.mNameToService.find? name = some entry ∧
      entry.debugPid = env.ctx.debugPid ∧ entry.binder = service := by
  unfold registerClientCallbackError at h
  by_cases hcb : cb = none
  · simp [hcb] at h
  rw [if_neg hcb] at h
  by_cases hadd : (!env.canAdd name) = true
  · simp [hadd] at h
  rw [if_neg hadd] at h
  refine ⟨hcb, ?_⟩
  cases hs : s.mNameToService.find? name with
  | none => simp [hs] at h
  | some entry =>
    simp only [hs] at h
    split_ifs at h with hpid hbinder
    exact ⟨entry, rfl, not_not.mp hpid, not_not.mp hbinder⟩

section Callbacks

variable {γ : Type} {m : OrdMap ServiceName (List (Listener γ))} {who : Option IBinder}
  {cbs rest : List (Listener γ)}

/-- No vector of the map is empty or contains null. -/
def Filled (m : OrdMap ServiceName (List (Listener γ))) : Prop :=
  ∀ name cbs, m.find? name = some cbs → cbs ≠ [] ∧ ∀ cb ∈ cbs, cb.callback ≠ none

theorem Filled.insert (hm : Filled m) (hne : cbs ≠ []) (hcbs : ∀ cb ∈ cbs, cb.callback ≠ none) :
    Filled (m.insert name cbs) := by
  intro k l hl
  rw [OrdMap.find?_insert] at hl
  split_ifs at hl with hk
  · cases hl
    exact ⟨hne, hcbs⟩
  · exact hm k l hl

theorem Filled.erase (hm : Filled m) : Filled (m.erase name) := by
  intro k l hl
  rw [OrdMap.find?_erase] at hl
  split_ifs at hl with hk
  exact hm k l hl

theorem Filled.push (hm : Filled m) {cb : Listener γ} (hcb : cb.callback ≠ none) :
    Filled (m.insert name ((m.find? name).getD [] ++ [cb])) := by
  refine hm.insert (by simp) ?_
  intro c hc
  rcases List.mem_append.mp hc with hc | hc
  · cases hl : m.find? name with
    | none => simp [hl] at hc
    | some l =>
      rw [hl] at hc
      exact (hm name l hl).2 c hc
  · exact List.mem_singleton.mp hc ▸ hcb

theorem dropCallback_eq_some (h : dropCallback who cbs = some rest) :
    rest ≠ [] ∧ ∀ cb, cb ∈ rest ↔ cb ∈ cbs ∧ cb.callback ≠ who := by
  unfold dropCallback removeCallback at h
  dsimp only at h
  split_ifs at h with hempty
  cases h
  exact ⟨by simpa using hempty, fun cb => by simp⟩

theorem Filled.dropCallback (hm : Filled m) (hl : m.find? name = some cbs)
    (h : dropCallback who cbs = some rest) : rest ≠ [] ∧ ∀ cb ∈ rest, cb.callback ≠ none := by
  obtain ⟨hne, hmem⟩ := dropCallback_eq_some h
  exact ⟨hne, fun cb hcb => (hm name cbs hl).2 cb ((hmem cb).mp hcb).1⟩

theorem Filled.filterMap (hm : Filled m) : Filled (m.filterMap (ServiceManager.dropCallback who)) := by
  intro k l hl
  rw [OrdMap.find?_filterMap] at hl
  obtain ⟨cbs, hcbs, hdrop⟩ := Option.bind_eq_some_iff.mp hl
  exact hm.dropCallback hcbs hdrop

end Callbacks

/-- What holds of the three maps between two calls. -/
structure WellFormed (s : ServiceManager) : Prop where
  services : ∀ name service, s.mNameToService.find? name = some service →
    service.binder ≠ none ∧ isValidServiceName name = true
  registrations : Filled s.mNameToRegistrationCallback
  clients : Filled s.mNameToClientCallback

theorem WellFormed.init : WellFormed init where
  services := by simp [ServiceManager.init]
  registrations := by simp [Filled, ServiceManager.init]
  clients := by simp [Filled, ServiceManager.init]

section

variable (h : WellFormed s)
include h

theorem WellFormed.log (es : List Event) : WellFormed (s.log es) :=
  ⟨h.services, h.registrations, h.clients⟩

theorem WellFormed.setService (hb : service.binder ≠ none)
    (hn : isValidServiceName name = true) : WellFormed (s.setService name service) where
  services := by
    intro k entry hk
    rw [setService_mNameToService, OrdMap.find?_insert] at hk
    split_ifs at hk with heq
    · cases hk
      exact ⟨hb, heq ▸ hn⟩
    · exact h.services k entry hk
  registrations := h.registrations
  clients := h.clients

theorem WellFormed.updateService {service' : Service}
    (hs : s.mNameToService.find? name = some service) (hb : service'.binder = service.binder) :
    WellFormed (s.setService name service') := by
  obtain ⟨hbinder, hname⟩ := h.services name service hs
  exact h.setService (hb ▸ hbinder) hname

theorem WellFormed.guarantee (hs : s.mNameToService.find? name = some service) :
    WellFormed (s.setService name service.guarantee) :=
  h.updateService hs rfl

theorem WellFormed.eraseService : WellFormed (s.eraseService name) where
  services := by
    intro k entry hk
    rw [eraseService_mNameToService, OrdMap.find?_erase] at hk
    split_ifs at hk with heq
    exact h.services k entry hk
  registrations := h.registrations
  clients := h.clients

theorem WellFormed.removeRegistrationCallback {who : Option IBinder}
    {listeners : List ServiceCallback}
    (hl : s.mNameToRegistrationCallback.find? name = some listeners) :
    WellFormed (s.removeRegistrationCallback who name listeners) := by
  unfold ServiceManager.removeRegistrationCallback
  cases hdrop : dropCallback who listeners with
  | none => exact ⟨h.services, h.registrations.erase, h.clients⟩
  | some =>
    obtain ⟨hne, hrest⟩ := h.registrations.dropCallback hl hdrop
    exact ⟨h.services, h.registrations.insert hne hrest, h.clients⟩

theorem WellFormed.binderDied (who : IBinder) : WellFormed (s.binderDied who) where
  services := by
    intro k entry hk
    unfold ServiceManager.binderDied at hk
    rw [OrdMap.find?_filterMap] at hk
    obtain ⟨entry', hentry, hkeep⟩ := Option.bind_eq_some_iff.mp hk
    split_ifs at hkeep with hwho
    cases hkeep
    exact h.services k _ hentry
  registrations := h.registrations.filterMap
  clients := h.clients.filterMap

theorem WellFormed.settles {t : ServiceManager} (hs : Settles s name t) : WellFormed (t.log [.checked name]) := by
  refine WellFormed.log ?_ _
  cases hs with
  | skipped => exact h
  | settled _ _ _ hs => exact (h.log _).updateService hs rfl

theorem WellFormed.moves {a : Action} (hm : Moves s a s') : WellFormed s' := by
  cases hm with
  | unchanged => exact h
  | started => exact h.log _
  | returned _ _ _ _ _ hs => exact (h.guarantee hs).log _
  | added _ _ _ _ _ he =>
    obtain ⟨hb, hn⟩ := addServiceError_eq_none he
    exact (h.setService hb hn).log _
  | registered env name callback es he =>
    have hcb := registerForNotificationsError_eq_none he
    have hset : WellFormed (s.setRegistrationCallbacks name
        (s.registrationCallbacks name ++ [⟨callback, env.ctx.uid⟩])) :=
      ⟨h.services, h.registrations.push hcb, h.clients⟩
    exact hset.log es
  | removed _ _ _ _ hl => exact h.removeRegistrationCallback hl
  | attached _ _ _ _ he =>
    have hcb := (registerClientCallbackError_eq_none he).1
    exact ⟨h.services, h.registrations, h.clients.push hcb⟩
  | refused _ _ _ hs => exact h.guarantee hs
  | unregistered => exact h.eraseService.log _
  | died who => exact h.binderDied who
  | checked _ _ hc => exact hc.invariant WellFormed h fun h hs => h.settles hs

end

theorem wellFormed_of_reachable (h : Reachable step Free init s) : WellFormed s :=
  h.invariant WellFormed .init fun _ _ _ hs _ hstep => hs.moves (step_moves hstep)

def Mentions (s : ServiceManager) (who : IBinder) : Prop :=
  (∃ name service, s.mNameToService.find? name = some service ∧ service.binder = some who) ∨
  (∃ name cbs, s.mNameToRegistrationCallback.find? name = some cbs ∧ ∃ cb ∈ cbs, cb.callback = some who) ∨
  ∃ name cbs, s.mNameToClientCallback.find? name = some cbs ∧ ∃ cb ∈ cbs, cb.callback = some who

theorem not_mem_of_filterMap {γ : Type} {m : OrdMap ServiceName (List (Listener γ))} {who : IBinder}
    {cbs : List (Listener γ)} {cb : Listener γ}
    (h : (m.filterMap (dropCallback (some who))).find? name = some cbs) (hcb : cb ∈ cbs) :
    cb.callback ≠ some who := by
  rw [OrdMap.find?_filterMap] at h
  obtain ⟨l, -, hdrop⟩ := Option.bind_eq_some_iff.mp h
  exact ((dropCallback_eq_some hdrop).2 cb |>.mp hcb).2

theorem binderDied_not_mentions (s : ServiceManager) (who : IBinder) : ¬ (s.binderDied who).Mentions who := by
  unfold Mentions ServiceManager.binderDied
  rintro (⟨name, service, hs, hb⟩ | ⟨name, cbs, hl, cb, hcb, hwho⟩ | ⟨name, cbs, hl, cb, hcb, hwho⟩)
  · rw [OrdMap.find?_filterMap] at hs
    obtain ⟨entry, -, hkeep⟩ := Option.bind_eq_some_iff.mp hs
    split_ifs at hkeep with hwho
    cases hkeep
    exact hwho hb
  · exact not_mem_of_filterMap hl hcb hwho
  · exact not_mem_of_filterMap hl hcb hwho

/-- The exceptions that say that the caller may not make the call, or not with these arguments. -/
def ExceptionCode.IsRejection (e : ExceptionCode) : Prop :=
  e = .security ∨ e = .illegalArgument ∨ e = .nullPointer
deriving Decidable

theorem unregisterForNotifications_rejected
    (h : (s.unregisterForNotifications env name callback).1.exception.IsRejection) :
    (s.unregisterForNotifications env name callback).2 = s := by
  unfold unregisterForNotifications at h ⊢
  split_ifs at h ⊢ with hfind
  · rfl
  · cases hl : s.mNameToRegistrationCallback.find? name with
    | none => rfl
    | some =>
      rw [hl] at h
      dsimp only at h
      split_ifs at h
      · exact absurd h (show ¬ ExceptionCode.IsRejection .illegalState by decide)
      · exact absurd h (show ¬ ExceptionCode.IsRejection .none by decide)

theorem registerForNotifications_rejected (h : s.registerForNotifications env name callback = some (r, s'))
    (hr : r.exception.IsRejection) : s' = s := by
  unfold registerForNotifications at h
  cases he : registerForNotificationsError env name callback with
  | some =>
    rw [he] at h
    cases h
    rfl
  | none =>
    rw [he] at h
    dsimp only at h
    split at h
    · cases h
      exact absurd hr (by decide)
    · split_ifs at h
      cases h
      exact absurd hr (by decide)

theorem transact_rejected {c : Call} (h : s.transact env c = some (r, s'))
    (hr : r.exception.IsRejection) : s' = s := by
  cases c with
  | getService | checkService =>
    cases h
    exact absurd hr (by decide)
  | addService name binder =>
    have heq := Option.some.inj h
    unfold addService at heq
    cases he : addServiceError env name binder with
    | some =>
      rw [he] at heq
      cases heq
      rfl
    | none =>
      rw [he] at heq
      cases heq
      exact absurd hr (by decide)
  | registerForNotifications => exact registerForNotifications_rejected h hr
  | unregisterForNotifications name callback =>
    have heq : s.unregisterForNotifications env name callback = (r, s') := Option.some.inj h
    have hrejected : (s.unregisterForNotifications env name callback).1.exception.IsRejection := by
      rw [heq]
      exact hr
    have hstate := unregisterForNotifications_rejected hrejected
    rwa [heq] at hstate
  | registerClientCallback name service cb =>
    have heq := Option.some.inj h
    unfold registerClientCallback at heq
    cases he : s.registerClientCallbackError env name service cb with
    | some =>
      rw [he] at heq
      cases heq
      rfl
    | none =>
      rw [he] at heq
      cases heq
      exact absurd hr (by decide)
  | tryUnregisterService name binder =>
    obtain ⟨r', t, heq, hcases⟩ := tryUnregisterService_cases s env name binder
    cases heq.symm.trans h
    cases hcases with
    | rejected => rfl
    | refused | done => exact absurd hr (by decide)
  | listServices | isDeclared | getDeclaredInstances | updatableViaApex | getConnectionInfo | getServiceDebugInfo =>
    cases h
    rfl

theorem registerForNotifications_isSome (h : WellFormed s) (callback : Option IBinder) :
    (s.registerForNotifications env name callback).isSome = true := by
  unfold registerForNotifications
  cases registerForNotificationsError env name callback with
  | some => rfl
  | none =>
    dsimp only
    rw [setRegistrationCallbacks_mNameToService]
    cases hs : s.mNameToService.find? name with
    | none => rfl
    | some service => simp [(h.services name service hs).1]

theorem step_isSome (h : WellFormed s) (a : Action) : (s.step a).isSome = true := by
  cases a with
  | binderDied => rfl
  | handleClientCallbacks counts =>
    obtain ⟨t, heq, -⟩ := handleClientCallbacks_checks s counts
    exact Option.isSome_iff_exists.mpr ⟨t, heq⟩
  | call env c =>
    have htransact : (s.transact env c).isSome = true := by
      cases c with
      | registerForNotifications _ callback => exact registerForNotifications_isSome h callback
      | tryUnregisterService name binder =>
        obtain ⟨r, t, heq, -⟩ := tryUnregisterService_cases s env name binder
        exact Option.isSome_iff_exists.mpr ⟨_, heq⟩
      | _ => rfl
    simpa [step] using htransact

/-- In every reachable state the maps are well formed, a dead binder leaves all of them, a
rejected call changes nothing, and no action runs into a failed `CHECK`. -/
theorem registry_wellFormed (h : Reachable step Free init s) :
    (∀ name service, s.mNameToService.find? name = some service →
      service.binder ≠ none ∧ isValidServiceName name = true) ∧
    (∀ name cbs, s.mNameToRegistrationCallback.find? name = some cbs → cbs ≠ [] ∧ ∀ cb ∈ cbs, cb.callback ≠ none) ∧
    (∀ name cbs, s.mNameToClientCallback.find? name = some cbs → cbs ≠ [] ∧ ∀ cb ∈ cbs, cb.callback ≠ none) ∧
    (∀ who t, s.step (.binderDied who) = some t → ¬ t.Mentions who) ∧
    (∀ env c r t, s.transact env c = some (r, t) → r.exception.IsRejection → t = s) ∧
    ∀ a, s.step a ≠ none := by
  have hw := wellFormed_of_reachable h
  refine ⟨hw.services, hw.registrations, hw.clients, ?_, ?_, ?_⟩
  · intro who t ht
    cases ht
    exact binderDied_not_mentions s who
  · intro env c r t ht hr
    exact transact_rejected ht hr
  · intro a ha
    have hsome := step_isSome hw a
    simp [ha] at hsome

def Env.granting (debugPid : ℤ) (uid : ℕ) (getNodeStrongRefCount : ℤ) : Env where
  ctx := ⟨debugPid, uid⟩
  canFind _ := true
  canAdd _ := true
  canList := true
  requiresVintfDeclaration := false
  isVintfDeclared _ := false
  getVintfInstances _ := []
  getVintfUpdatableApex _ := none
  getVintfConnectionInfo _ := none
  remoteBinder := true
  linkToDeath := true
  getNodeStrongRefCount := getNodeStrongRefCount

/-- A process adds a service and a client callback for it. -/
def served (name : ServiceName) : List Action :=
  [.call (.granting 7 1000 1) (.addService name (some 1) false 0),
    .call (.granting 7 1000 1) (.registerClientCallback name (some 1) (some 3))]

/-- A registered service with a callback of each kind. -/
theorem registry_wellFormed_served : ∃ s, Reachable step Free init s ∧
    (s.mNameToService.size = 1 ∧ s.mNameToRegistrationCallback.size = 1 ∧
      s.mNameToClientCallback.size = 1) ∧ ∀ a, s.step a ≠ none := by
  obtain ⟨s, hs, hsizes⟩ := exists_reachable step Free init
    (served [97] ++
      [.call (.granting 8 1000 1) (.registerForNotifications [97] (some 2)), .handleClientCallbacks fun _ => 5])
    (fun s => s.mNameToService.size = 1 ∧ s.mNameToRegistrationCallback.size = 1 ∧
      s.mNameToClientCallback.size = 1) (by decide)
  exact ⟨s, hs, hsizes, (registry_wellFormed hs).2.2.2.2.2⟩

end Binder.ServiceManager
