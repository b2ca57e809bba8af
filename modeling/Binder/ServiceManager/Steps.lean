import Binder.ServiceManager.State
import Binder.Lib.Chain
import Binder.Lib.Transition

/-! What each action can do to the maps and to the history. -/
namespace Binder.ServiceManager

open Lib List

variable {s s' : ServiceManager} {env : Env} {name : ServiceName} {service : Service}

theorem log_nil (s : ServiceManager) : s.log [] = s := by
  simp [log]

/-- The entries of `s'` are entries of `s` as far as `f` reads them. -/
def Keeps {α : Type} (f : Service → α) (s s' : ServiceManager) : Prop :=
  ∀ name service', s'.mNameToService.find? name = some service' →
    ∃ service, s.mNameToService.find? name = some service ∧ f service' = f service

section Keeps

variable {α : Type} {f : Service → α}

theorem Keeps.of_eq (h : s'.mNameToService = s.mNameToService) : Keeps f s s' := by
  intro name service' hs
  exact ⟨service', h ▸ hs, rfl⟩

theorem Keeps.trans {t : ServiceManager} (h : Keeps f s t) (h' : Keeps f t s') : Keeps f s s' := by
  intro name service' hs
  obtain ⟨service, ht, heq⟩ := h' name service' hs
  obtain ⟨service₀, hs₀, heq₀⟩ := h name service ht
  exact ⟨service₀, hs₀, heq.trans heq₀⟩

theorem Keeps.setService {service' : Service} (hs : s.mNameToService.find? name = some service)
    (hf : f service' = f service) : Keeps f s (s.setService name service') := by
  intro k entry hk
  rw [setService_mNameToService, OrdMap.find?_insert] at hk
  split_ifs at hk with heq
  · cases hk
    exact ⟨service, heq ▸ hs, hf⟩
  · exact ⟨entry, hk, rfl⟩

theorem Keeps.eraseService : Keeps f s (s.eraseService name) := by
  intro k entry hk
  rw [eraseService_mNameToService, OrdMap.find?_erase] at hk
  split_ifs at hk with heq
  exact ⟨entry, hk, rfl⟩

theorem Keeps.binderDied (who : IBinder) : Keeps f s (s.binderDied who) := by
  intro k entry hk
  unfold ServiceManager.binderDied at hk
  rw [OrdMap.find?_filterMap] at hk
  obtain ⟨service, hservice, hkeep⟩ := Option.bind_eq_some_iff.mp hk
  split_ifs at hkeep
  cases hkeep
  exact ⟨entry, hservice, rfl⟩

end Keeps

theorem removeRegistrationCallback_mNameToService (who : Option IBinder) (cbs : List ServiceCallback) :
    (s.removeRegistrationCallback who name cbs).mNameToService = s.mNameToService := by
  unfold removeRegistrationCallback
  split <;> rfl

theorem removeRegistrationCallback_mNameToClientCallback (who : Option IBinder) (cbs : List ServiceCallback) :
    (s.removeRegistrationCallback who name cbs).mNameToClientCallback = s.mNameToClientCallback := by
  unfold removeRegistrationCallback
  split <;> rfl

theorem removeRegistrationCallback_history (who : Option IBinder) (cbs : List ServiceCallback) :
    (s.removeRegistrationCallback who name cbs).history = s.history := by
  unfold removeRegistrationCallback
  split <;> rfl

def notifications (callbacks : List ClientCallback) (name : ServiceName) (service : Service)
    (hasClients : Bool) : List Event :=
  callbacks.map fun cb => .onClients cb name service.binder hasClients

/-- The state after the values `told` went to the callbacks of `name`, one after the other, and
the entry took over the two flags. -/
def settle (s : ServiceManager) (name : ServiceName) (service : Service)
    (callbacks : List ClientCallback) (told : List Bool) (guaranteeClient : Bool) :
    ServiceManager :=
  (s.log (told.flatMap (notifications callbacks name service))).setService name
    { service with
      hasClients := told.getLastD service.hasClients
      guaranteeClient := guaranteeClient }

section Settle

variable {callbacks : List ClientCallback} {told : List Bool} {g : Bool}

theorem settle_find? : (s.settle name service callbacks told g).mNameToService.find? name = some { service with
      hasClients := told.getLastD service.hasClients
      guaranteeClient := g } := by
  simp [settle]

@[simp] theorem settle_mNameToClientCallback :
    (s.settle name service callbacks told g).mNameToClientCallback = s.mNameToClientCallback := rfl

theorem settle_nil (hs : s.mNameToService.find? name = some service) :
    s.settle name service callbacks [] service.guaranteeClient = s := by
  have hmap : s.mNameToService.insert name service = s.mNameToService := by
    apply OrdMap.ext_find?
    intro k
    by_cases hk : k = name <;> simp [hk, hs]
  simp [settle, setService, log, hmap]

theorem settle_clearGuarantee : (s.settle name service callbacks told g).clearGuarantee name =
    s.settle name service callbacks told false := by
  unfold clearGuarantee
  simp [settle, setService, log]

theorem settle_recordedClients : (s.settle name service callbacks told g).recordedClients name =
    told.getLastD service.hasClients := by
  simp [recordedClients, settle_find?]

theorem settle_send {v : Bool} (hc : s.mNameToClientCallback.find? name = some callbacks)
    (hv : told.getLastD service.hasClients ≠ v) :
    (s.settle name service callbacks told g).sendClientCallbackNotifications name v =
      some (s.settle name service callbacks (told ++ [v]) g) := by
  unfold sendClientCallbackNotifications
  rw [settle_find?, settle_mNameToClientCallback, hc]
  simp only [if_neg hv.symm]
  simp [settle, setService, log, notifications]

/-- A round of notifications that is sent only if it changes the record. -/
theorem settle_sendIf {c v : Bool} (hc : s.mNameToClientCallback.find? name = some callbacks)
    (hchain : (service.hasClients :: told).IsChain (· ≠ ·))
    (hv : c = true → told.getLastD service.hasClients ≠ v) :
    ∃ told' : List Bool, (service.hasClients :: told').IsChain (· ≠ ·) ∧
      (s.settle name service callbacks told g).sendIf c name v =
        some (s.settle name service callbacks told' g) := by
  cases c with
  | false => exact ⟨told, hchain, rfl⟩
  | true => exact ⟨told ++ [v], isChain_concat hchain (hv rfl), settle_send hc (hv rfl)⟩

end Settle

/-- One check of a service on an interval: either it finds nothing to check, or it tells the
callbacks of every change of the flag on the way to the current value. -/
inductive Settles (s : ServiceManager) (name : ServiceName) : ServiceManager → Prop
  | skipped : Settles s name s
  | settled (service : Service) (callbacks : List ClientCallback) (told : List Bool) :
      s.mNameToService.find? name = some service →
      s.mNameToClientCallback.find? name = some callbacks →
      (service.hasClients :: told).IsChain (· ≠ ·) →
      Settles s name (s.settle name service callbacks told false)

theorem handleGuarantee_settles {callbacks : List ClientCallback} (hasClients : Bool)
    (hs : s.mNameToService.find? name = some service)
    (hc : s.mNameToClientCallback.find? name = some callbacks) :
    ∃ told : List Bool, (service.hasClients :: told).IsChain (· ≠ ·) ∧ s.handleGuarantee name service hasClients =
        some (s.settle name service callbacks told false) := by
  have hnil : s.settle name service callbacks [] service.guaranteeClient = s := settle_nil hs
  unfold handleGuarantee
  cases hg : service.guaranteeClient with
  | false =>
    rw [hg] at hnil
    exact ⟨[], isChain_singleton _, by rw [hnil]; rfl⟩
  | true =>
    have hv : (!service.hasClients && !hasClients) = true →
        ([] : List Bool).getLastD service.hasClients ≠ true := by
      cases service.hasClients <;> simp
    obtain ⟨told, hchain, hsend⟩ := settle_sendIf (g := true) hc (isChain_singleton _) hv
    rw [hg] at hnil
    rw [hnil] at hsend
    refine ⟨told, hchain, ?_⟩
    rw [if_pos rfl, hsend, Option.map_some, settle_clearGuarantee]

/-- No `CHECK` of the notifications fails on an interval. -/
theorem handleServiceClientCallback_settles (s : ServiceManager) (count : ℤ) (name : ServiceName) :
    ∃ n s', s.handleServiceClientCallback count name true = some (n, s') ∧ Settles s name s' := by
  unfold handleServiceClientCallback
  cases hs : s.mNameToService.find? name with
  | none => exact ⟨_, _, rfl, .skipped⟩
  | some service =>
    cases hc : s.mNameToClientCallback.find? name with
    | none => exact ⟨_, _, rfl, .skipped⟩
    | some callbacks =>
      by_cases hcount : count = -1
      · exact ⟨_, _, if_pos hcount, .skipped⟩
      generalize decide (count > 1) = hasClients
      obtain ⟨told₁, hchain₁, h₁⟩ := handleGuarantee_settles hasClients hs hc
      have hv₁ : (hasClients && !told₁.getLastD service.hasClients) = true →
          told₁.getLastD service.hasClients ≠ true := by
        cases told₁.getLastD service.hasClients <;> simp
      obtain ⟨told₂, hchain₂, h₂⟩ := settle_sendIf (g := false) hc hchain₁ hv₁
      have hv₂ : (!hasClients && told₂.getLastD service.hasClients) = true →
          told₂.getLastD service.hasClients ≠ false := by
        cases told₂.getLastD service.hasClients <;> simp
      obtain ⟨told₃, hchain₃, h₃⟩ := settle_sendIf (g := false) hc hchain₂ hv₂
      refine ⟨count, _, ?_, .settled service callbacks told₃ hs hc hchain₃⟩
      simp only [if_neg hcount, Option.bind_eq_bind, h₁, Option.bind_some, settle_recordedClients, h₂, h₃, if_true]

/-- Without a guarantee to clear, `tryUnregisterService` only asks for the count. -/
theorem handleServiceClientCallback_idle (count : ℤ)
    (hs : s.mNameToService.find? name = some service) (hg : service.guaranteeClient = false) :
    ∃ n, s.handleServiceClientCallback count name false = some (n, s) := by
  unfold handleServiceClientCallback
  rw [hs]
  cases hc : s.mNameToClientCallback.find? name with
  | none => exact ⟨_, rfl⟩
  | some =>
    dsimp only
    split
    · exact ⟨_, rfl⟩
    · exact ⟨count, by simp [handleGuarantee, hg]⟩

/-- The checks of one interval, service by service. -/
inductive Checks (s : ServiceManager) : ServiceManager → Prop
  | init : Checks s s
  | next {t t' : ServiceManager} {name : ServiceName} :
      Checks s t → Settles t name t' → Checks s (t'.log [.checked name])

theorem Checks.invariant (P : ServiceManager → Prop) {t : ServiceManager} (hc : Checks s t)
    (h₀ : P s) (hstep : ∀ {t name t'}, P t → Settles t name t' → P (t'.log [.checked name])) :
    P t := by
  induction hc with
  | init => exact h₀
  | next _ hsettles ih => exact hstep ih hsettles

theorem checks_foldlM {s : ServiceManager} {f : ServiceManager → ServiceName → Option ServiceManager}
    (hf : ∀ t name, Checks s t → ∃ t', f t name = some t' ∧ Checks s t') (names : List ServiceName)
    {t : ServiceManager} (ht : Checks s t) : ∃ s', names.foldlM f t = some s' ∧ Checks s s' := by
  induction names generalizing t with
  | nil => exact ⟨t, rfl, ht⟩
  | cons name names ih =>
    obtain ⟨t', heq, ht'⟩ := hf t name ht
    rw [foldlM_cons, heq]
    exact ih ht'

theorem handleClientCallbacks_checks (s : ServiceManager) (counts : ServiceName → ℤ) :
    ∃ s', s.handleClientCallbacks counts = some s' ∧ Checks s s' := by
  unfold ServiceManager.handleClientCallbacks
  refine checks_foldlM (fun t name ht => ?_) _ .init
  obtain ⟨n, t', heq, hsettles⟩ := handleServiceClientCallback_settles t (counts name) name
  rw [heq]
  exact ⟨_, rfl, .next ht hsettles⟩

/-- What an action leaves, with the tests it has passed. -/
inductive Moves (s : ServiceManager) : Action → ServiceManager → Prop
  | unchanged (a : Action) : Moves s a s
  | started (a : Action) (name : ServiceName) : Moves s a (s.log [.tryStartService name])
  | returned (a : Action) (uid : ℕ) (name : ServiceName) (service : Service) (out : IBinder) :
      s.mNameToService.find? name = some service → service.binder = some out →
      (isIsolated uid = true → service.allowIsolated = true) →
      Moves s a ((s.setService name service.guarantee).log [.returned uid name out])
  | added (env : Env) (name : ServiceName) (binder : Option IBinder) (allowIsolated : Bool)
      (dumpPriority : BitVec 32) :
      addServiceError env name binder = none →
      Moves s (.call env (.addService name binder allowIsolated dumpPriority))
        ((s.setService name (s.newService env name binder allowIsolated dumpPriority)).log
          ((s.registrationCallbacks name).map fun cb => .onRegistration cb name binder))
  | registered (env : Env) (name : ServiceName) (callback : Option IBinder) (es : List Event) :
      registerForNotificationsError env name callback = none →
      (∀ e ∈ es, ∃ service, s.mNameToService.find? name = some service ∧ service.binder ≠ none ∧
        e = .onRegistration ⟨callback, env.ctx.uid⟩ name service.binder) →
      Moves s (.call env (.registerForNotifications name callback))
        ((s.setRegistrationCallbacks name (s.registrationCallbacks name ++ [⟨callback, env.ctx.uid⟩])).log es)
  | removed (a : Action) (callback : Option IBinder) (name : ServiceName)
      (listeners : List ServiceCallback) :
      s.mNameToRegistrationCallback.find? name = some listeners →
      Moves s a (s.removeRegistrationCallback callback name listeners)
  | attached (env : Env) (name : ServiceName) (service cb : Option IBinder) :
      s.registerClientCallbackError env name service cb = none →
      Moves s (.call env (.registerClientCallback name service cb))
        (s.setClientCallbacks name (s.clientCallbacks name ++ [⟨cb, service⟩]))
  | refused (a : Action) (name : ServiceName) (service : Service) :
      s.mNameToService.find? name = some service →
      Moves s a (s.setService name service.guarantee)
  | unregistered (a : Action) (name : ServiceName) (service : Service) :
      s.mNameToService.find? name = some service → service.guaranteeClient = false →
      Moves s a ((s.eraseService name).log [.unregistered name])
  | died (who : IBinder) : Moves s (.binderDied who) (s.binderDied who)
  | checked (a : Action) (t : ServiceManager) : Checks s t → Moves s a t

theorem started_moves (a : Action) (startIfNotFound : Bool) :
    Moves s a (if startIfNotFound then s.log [.tryStartService name] else s) := by
  cases startIfNotFound with
  | false => exact .unchanged a
  | true => exact .started a name

theorem tryGetService_moves (a : Action) (startIfNotFound : Bool) :
    Moves s a (s.tryGetService env name startIfNotFound).2 := by
  unfold tryGetService
  by_cases hisolated : (s.mNameToService.find? name).any
      (fun service => !service.allowIsolated && isIsolated env.ctx.uid) = true
  · rw [if_pos hisolated]
    exact .unchanged a
  rw [if_neg hisolated]
  by_cases hfind : (!env.canFind name) = true
  · rw [if_pos hfind]
    exact .unchanged a
  rw [if_neg hfind]
  cases hs : s.mNameToService.find? name with
  | none => exact started_moves a startIfNotFound
  | some service =>
    simp only [Option.bind_some]
    cases hb : service.binder with
    | none => exact started_moves a startIfNotFound
    | some out =>
      refine .returned a env.ctx.uid name service out hs hb ?_
      intro hu
      simpa [hs, hu] using hisolated

theorem addService_moves (binder : Option IBinder) (allowIsolated : Bool) (dumpPriority : BitVec 32) :
    Moves s (.call env (.addService name binder allowIsolated dumpPriority))
      (s.addService env name binder allowIsolated dumpPriority).2 := by
  unfold addService
  cases he : addServiceError env name binder with
  | some => exact .unchanged _
  | none => exact .added env name binder allowIsolated dumpPriority he

theorem registerForNotifications_moves {callback : Option IBinder} {r : Reply}
    (h : s.registerForNotifications env name callback = some (r, s')) :
    Moves s (.call env (.registerForNotifications name callback)) s' := by
  unfold registerForNotifications at h
  cases he : registerForNotificationsError env name callback with
  | some =>
    rw [he] at h
    cases h
    exact .unchanged _
  | none =>
    rw [he] at h
    dsimp only at h
    cases hs : s.mNameToService.find? name with
    | none =>
      rw [setRegistrationCallbacks_mNameToService, hs] at h
      cases h
      have hm := Moves.registered (s := s) env name callback [] he (by simp)
      rwa [log_nil] at hm
    | some service =>
      rw [setRegistrationCallbacks_mNameToService, hs] at h
      dsimp only at h
      split_ifs at h with hb
      cases h
      refine .registered env name callback _ he ?_
      intro e hmem
      exact ⟨service, hs, hb, mem_singleton.mp hmem⟩

theorem unregisterForNotifications_moves (a : Action) (callback : Option IBinder) :
    Moves s a (s.unregisterForNotifications env name callback).2 := by
  unfold unregisterForNotifications
  split
  · exact .unchanged a
  · cases hl : s.mNameToRegistrationCallback.find? name with
    | none => exact .unchanged a
    | some listeners =>
      dsimp only
      split
      · exact .removed a callback name listeners hl
      · exact .removed a callback name listeners hl

theorem registerClientCallback_moves (service cb : Option IBinder) :
    Moves s (.call env (.registerClientCallback name service cb))
      (s.registerClientCallback env name service cb).2 := by
  unfold registerClientCallback
  cases he : s.registerClientCallbackError env name service cb with
  | some => exact .unchanged _
  | none => exact .attached env name service cb he

/-- What `tryUnregisterService` answers and leaves. -/
inductive Unregisters (s : ServiceManager) (name : ServiceName) : Reply → ServiceManager → Prop
  | rejected (r : Reply) : r ≠ .ok → Unregisters s name r s
  | refused (service : Service) : s.mNameToService.find? name = some service →
      Unregisters s name ⟨.illegalState, ""⟩
        (s.setService name service.guarantee)
  | done (service : Service) :
      s.mNameToService.find? name = some service → service.guaranteeClient = false →
      Unregisters s name .ok ((s.eraseService name).log [.unregistered name])

theorem tryUnregisterService_cases (s : ServiceManager) (env : Env) (name : ServiceName) (binder : Option IBinder) :
    ∃ r s', s.tryUnregisterService env name binder = some (r, s') ∧ Unregisters s name r s' := by
  unfold tryUnregisterService
  split_ifs with hb hadd
  · exact ⟨_, _, rfl, .rejected _ (by decide)⟩
  · exact ⟨_, _, rfl, .rejected _ (by decide)⟩
  cases hs : s.mNameToService.find? name with
  | none => exact ⟨_, _, rfl, .rejected _ (by decide)⟩
  | some service =>
    dsimp only
    split_ifs with hpid hbinder hg
    · exact ⟨_, _, rfl, .rejected _ (by decide)⟩
    · exact ⟨_, _, rfl, .rejected _ (by decide)⟩
    · exact ⟨_, _, rfl, .rejected _ (by decide)⟩
    obtain ⟨n, hn⟩ := handleServiceClientCallback_idle env.getNodeStrongRefCount hs
      (Bool.not_eq_true _ ▸ hg)
    simp only [hn, Option.bind_eq_bind, Option.bind_some, hs]
    split_ifs with hclients
    · exact ⟨_, _, rfl, .refused service hs⟩
    · exact ⟨_, _, rfl, .done service hs (Bool.not_eq_true _ ▸ hg)⟩

theorem transact_moves {c : Call} {r : Reply} (h : s.transact env c = some (r, s')) : Moves s (.call env c) s' := by
  cases c with
  | getService =>
    cases h
    exact tryGetService_moves _ true
  | checkService =>
    cases h
    exact tryGetService_moves _ false
  | addService name binder allowIsolated dumpPriority =>
    have hs : (s.addService env name binder allowIsolated dumpPriority).2 = s' :=
      congrArg Prod.snd (Option.some.inj h)
    exact hs ▸ addService_moves binder allowIsolated dumpPriority
  | registerForNotifications => exact registerForNotifications_moves h
  | unregisterForNotifications name callback =>
    have hs : (s.unregisterForNotifications env name callback).2 = s' :=
      congrArg Prod.snd (Option.some.inj h)
    exact hs ▸ unregisterForNotifications_moves _ callback
  | registerClientCallback name service cb =>
    have hs : (s.registerClientCallback env name service cb).2 = s' :=
      congrArg Prod.snd (Option.some.inj h)
    exact hs ▸ registerClientCallback_moves service cb
  | tryUnregisterService name binder =>
    obtain ⟨r', t, heq, hcases⟩ := tryUnregisterService_cases s env name binder
    cases heq.symm.trans h
    cases hcases with
    | rejected => exact .unchanged _
    | refused service hs => exact .refused _ name service hs
    | done service hs hg => exact .unregistered _ name service hs hg
  | listServices | isDeclared | getDeclaredInstances | updatableViaApex | getConnectionInfo | getServiceDebugInfo =>
    cases h
    exact .unchanged _

theorem step_moves {a : Action} (h : s.step a = some s') : Moves s a s' := by
  cases a with
  | call =>
    obtain ⟨⟨r, t⟩, hr, rfl⟩ := Option.map_eq_some_iff.mp h
    exact transact_moves hr
  | binderDied who =>
    cases h
    exact .died who
  | handleClientCallbacks counts =>
    obtain ⟨t, heq, hchecks⟩ := handleClientCallbacks_checks s counts
    cases heq.symm.trans h
    exact .checked _ _ hchecks

end Binder.ServiceManager
