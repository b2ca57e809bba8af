import Binder.ServiceManager.Registry

/-! Which processes obtain a binder that was registered with `allowIsolated == false`. -/
namespace Binder.ServiceManager

open Lib List

variable {s s' : ServiceManager} {env : Env} {name : ServiceName} {e : Event}

/-- The process to which an event passes a binder of a service. -/
def Event.passes : Event → Option (ℕ × Option IBinder)
  | .returned uid _ binder => some (uid, some binder)
  | .onRegistration cb _ binder => some (cb.origin, binder)
  | _ => none

/-- The event is one of those between the two states. -/
def Emits (s s' : ServiceManager) (e : Event) : Prop :=
  ∃ es, s'.history = s.history ++ es ∧ e ∈ es

/-- Some registration of the binder does not allow isolated processes. -/
def Restricted (s : ServiceManager) (binder : Option IBinder) : Prop :=
  ∃ name service, s.mNameToService.find? name = some service ∧ service.binder = binder ∧
    service.allowIsolated = false

/-- An isolated process asks to be told of services only where the present one allows it, a
service that does not allow it is added only where no isolated process asked, and a binder is
registered under all its names with the same flag. -/
def KeepsIsolation (s : ServiceManager) : Action → Prop
  | .call env (.addService name binder allowIsolated _) =>
    addServiceError env name binder = none →
      (allowIsolated = false → ∀ cb ∈ s.registrationCallbacks name, isIsolated cb.origin = false) ∧
      ∀ e ∈ s.mNameToService.entries, e.1 ≠ name → e.2.binder = binder → e.2.allowIsolated = allowIsolated
  | .call env (.registerForNotifications name callback) =>
    registerForNotificationsError env name callback = none → isIsolated env.ctx.uid = true →
      ∀ service ∈ s.mNameToService.find? name, service.allowIsolated = true
  | _ => True

instance (s : ServiceManager) (a : Action) : Decidable (KeepsIsolation s a) := by
  induction a using Action.casesOn with
  | call _ c => induction c using Call.casesOn <;> dsimp only [KeepsIsolation] <;> infer_instance
  | _ => exact .isTrue trivial

/-- All registrations of a binder have the same flag. -/
def Uniform (s : ServiceManager) : Prop :=
  ∀ name name' service service', s.mNameToService.find? name = some service →
    s.mNameToService.find? name' = some service' → service.binder = service'.binder →
    service.allowIsolated = service'.allowIsolated

def access (service : Service) : Option IBinder × Bool := (service.binder, service.allowIsolated)

theorem Uniform.keeps (h : Uniform s) (hk : Keeps access s s') : Uniform s' := by
  intro name name' service service' hs hs' hb
  obtain ⟨entry, hentry, heq⟩ := hk name service hs
  obtain ⟨entry', hentry', heq'⟩ := hk name' service' hs'
  have hbinder : service.binder = entry.binder := congrArg Prod.fst heq
  have hbinder' : service'.binder = entry'.binder := congrArg Prod.fst heq'
  have hflag : service.allowIsolated = entry.allowIsolated := congrArg Prod.snd heq
  have hflag' : service'.allowIsolated = entry'.allowIsolated := congrArg Prod.snd heq'
  rw [hflag, hflag']
  exact h name name' entry entry' hentry hentry' (by rw [← hbinder, ← hbinder', hb])

theorem Restricted.of_keeps {binder : Option IBinder} (h : Restricted s' binder)
    (hk : Keeps access s s') : Restricted s binder := by
  obtain ⟨name, service, hs, hb, hflag⟩ := h
  obtain ⟨entry, hentry, heq⟩ := hk name service hs
  have hbinder : service.binder = entry.binder := congrArg Prod.fst heq
  have hallow : service.allowIsolated = entry.allowIsolated := congrArg Prod.snd heq
  exact ⟨name, entry, hentry, hbinder ▸ hb, hallow ▸ hflag⟩

theorem Uniform.not_restricted {service : Service} (h : Uniform s)
    (hs : s.mNameToService.find? name = some service) (ha : service.allowIsolated = true) :
    ¬ Restricted s service.binder := by
  rintro ⟨name', service', hs', hb, hflag⟩
  have := h name name' service service' hs hs' hb.symm
  simp [ha, hflag] at this

theorem Checks.keeps_access {t : ServiceManager} (h : Checks s t) :
    Keeps access s t ∧ ∃ es : List Event, t.history = s.history ++ es ∧ ∀ e ∈ es, e.passes = none := by
  refine h.invariant (fun t => Keeps access s t ∧ ∃ es : List Event,
    t.history = s.history ++ es ∧ ∀ e ∈ es, e.passes = none) ⟨.of_eq rfl, [], by simp, by simp⟩ ?_
  rintro t name t' ⟨hkeeps, es, heq, hes⟩ hsettles
  cases hsettles with
  | skipped =>
    refine ⟨hkeeps.trans (.of_eq rfl), es ++ [.checked name], ?_, ?_⟩
    · rw [log_history, heq, append_assoc]
    · intro e he
      rcases mem_append.mp he with he | he
      · exact hes e he
      · rw [mem_singleton.mp he]
        rfl
  | settled service callbacks told hfind =>
    have hset : Keeps access t (t.settle name service callbacks told false) :=
      Keeps.trans (.of_eq (log_mNameToService t _)) (.setService hfind rfl)
    refine ⟨hkeeps.trans (hset.trans (.of_eq rfl)),
      es ++ (told.flatMap (notifications callbacks name service) ++ [.checked name]), ?_, ?_⟩
    · rw [log_history, settle, setService_history, log_history, heq, append_assoc, append_assoc]
    · intro e he
      rcases mem_append.mp he with he | he
      · exact hes e he
      rcases mem_append.mp he with he | he
      · obtain ⟨v, -, he⟩ := mem_flatMap.mp he
        obtain ⟨cb, -, rfl⟩ := mem_map.mp he
        rfl
      · rw [mem_singleton.mp he]
        rfl

theorem Uniform.added {service : Service} {es : List Event} (h : Uniform s)
    (hsame : ∀ e ∈ s.mNameToService.entries, e.1 ≠ name → e.2.binder = service.binder →
      e.2.allowIsolated = service.allowIsolated) :
    Uniform ((s.setService name service).log es) := by
  have hother : ∀ k entry, k ≠ name → s.mNameToService.find? k = some entry →
      entry.binder = service.binder → entry.allowIsolated = service.allowIsolated := by
    intro k entry hk hentry hb
    exact hsame (k, entry) (OrdMap.find?_eq_some_iff.mp hentry) hk hb
  intro k k' entry entry' hs hs' hb
  rw [log_mNameToService, setService_mNameToService, OrdMap.find?_insert] at hs hs'
  split_ifs at hs hs' with hk hk' hk'
  · cases hs
    cases hs'
    rfl
  · cases hs
    exact (hother k' entry' hk' hs' hb.symm).symm
  · cases hs'
    exact hother k entry hk hs hb
  · exact h k k' entry entry' hs hs' hb

/-- What a step other than a hand-out does: no flag changes and no binder is passed. -/
inductive AccessMoves (s : ServiceManager) : Action → ServiceManager → Prop
  | silent (a : Action) (t : ServiceManager) (es : List Event) : Keeps access s t →
      t.history = s.history ++ es → (∀ e ∈ es, e.passes = none) → AccessMoves s a t
  | returned (a : Action) (t : ServiceManager) (uid : ℕ) (name : ServiceName) (service : Service)
      (out : IBinder) : Keeps access s t → t.history = s.history ++ [.returned uid name out] →
      s.mNameToService.find? name = some service → service.binder = some out →
      (isIsolated uid = true → service.allowIsolated = true) → AccessMoves s a t
  | added (env : Env) (name : ServiceName) (binder : Option IBinder) (allowIsolated : Bool)
      (dumpPriority : BitVec 32) : addServiceError env name binder = none →
      AccessMoves s (.call env (.addService name binder allowIsolated dumpPriority))
        ((s.setService name (s.newService env name binder allowIsolated dumpPriority)).log
          ((s.registrationCallbacks name).map fun cb => .onRegistration cb name binder))
  | registered (env : Env) (name : ServiceName) (callback : Option IBinder) (t : ServiceManager)
      (es : List Event) : Keeps access s t → t.history = s.history ++ es →
      registerForNotificationsError env name callback = none →
      (∀ e ∈ es, ∃ service, s.mNameToService.find? name = some service ∧
        e = .onRegistration ⟨callback, env.ctx.uid⟩ name service.binder) →
      AccessMoves s (.call env (.registerForNotifications name callback)) t

theorem AccessMoves.quiet {a : Action} (hk : Keeps access s s') (hh : s'.history = s.history) :
    AccessMoves s a s' :=
  .silent a s' [] hk (by rw [hh, append_nil]) (by simp)

theorem Moves.accessMoves {a : Action} (h : Moves s a s') : AccessMoves s a s' := by
  cases h with
  | unchanged => exact .quiet (.of_eq rfl) rfl
  | started => exact .silent a _ _ (.of_eq rfl) rfl (by simp [Event.passes])
  | returned _ uid name service out hs hb hisolated =>
    have hset : Keeps access s (s.setService name service.guarantee) := .setService hs rfl
    exact .returned a _ uid name service out (hset.trans (.of_eq rfl)) rfl hs hb hisolated
  | added env name binder allowIsolated dumpPriority he =>
    exact .added env name binder allowIsolated dumpPriority he
  | registered env name callback es he hes =>
    refine .registered env name callback _ es (.of_eq rfl) rfl he ?_
    intro e hmem
    obtain ⟨service, hs, -, heq⟩ := hes e hmem
    exact ⟨service, hs, heq⟩
  | removed =>
    exact .quiet (.of_eq (removeRegistrationCallback_mNameToService _ _))
      (removeRegistrationCallback_history _ _)
  | attached => exact .quiet (.of_eq rfl) rfl
  | refused _ _ _ hs => exact .quiet (.setService hs rfl) rfl
  | unregistered _ name =>
    have herase : Keeps access s (s.eraseService name) := .eraseService
    exact .silent a _ _ (herase.trans (.of_eq rfl)) rfl (by simp [Event.passes])
  | died who => exact .quiet (.binderDied who) rfl
  | checked _ _ hc =>
    obtain ⟨hkeeps, es, heq, hes⟩ := hc.keeps_access
    exact .silent a _ es hkeeps heq hes

theorem Uniform.step {a : Action} (h : Uniform s) (ha : KeepsIsolation s a)
    (hstep : s.step a = some s') : Uniform s' := by
  cases (step_moves hstep).accessMoves with
  | silent _ _ _ hkeeps | returned _ _ _ _ _ _ hkeeps => exact h.keeps hkeeps
  | added _ _ _ _ _ he => exact h.added (ha he).2
  | registered _ _ _ _ _ hkeeps => exact h.keeps hkeeps

theorem emits_iff {es : List Event} (h : s'.history = s.history ++ es) : Emits s s' e ↔ e ∈ es := by
  constructor
  · rintro ⟨es', heq, he⟩
    rwa [append_cancel_left (h.symm.trans heq)]
  · exact fun he => ⟨es, h, he⟩

/-- Under the condition no step passes to an isolated process a binder that some registration
keeps from isolated processes. -/
theorem isolated_not_passed {a : Action} (h : Reachable step KeepsIsolation init s)
    (ha : KeepsIsolation s a) (hstep : s.step a = some s') (he : Emits s s' e) {uid : ℕ}
    {binder : Option IBinder} (hp : e.passes = some (uid, binder)) (hu : isIsolated uid = true) :
    ¬ Restricted s' binder := by
  have hinit : Uniform init := by simp [Uniform, init]
  have hs : Uniform s := h.invariant Uniform hinit fun _ _ _ hs ha hstep => hs.step ha hstep
  have hs' : Uniform s' := hs.step ha hstep
  cases (step_moves hstep).accessMoves with
  | silent _ _ _ _ heq hes =>
    have hnone := hes e ((emits_iff heq).mp he)
    simp [hnone] at hp
  | returned _ _ _ _ _ _ hkeeps heq hfind hb hisolated =>
    cases mem_singleton.mp ((emits_iff heq).mp he)
    cases hp
    intro hr
    have hallow := hisolated hu
    exact hs.not_restricted hfind hallow (hb ▸ hr.of_keeps hkeeps)
  | added env name _ allowIsolated dumpPriority herr =>
    obtain ⟨cb, hcb, rfl⟩ := mem_map.mp ((emits_iff rfl).mp he)
    cases hp
    have hallow : allowIsolated = true := by
      by_contra hfalse
      have hcallback := (ha herr).1 (by simpa using hfalse) cb hcb
      simp [hu] at hcallback
    have hfind : ((s.setService name (s.newService env name binder allowIsolated dumpPriority)).log
        ((s.registrationCallbacks name).map fun cb =>
          .onRegistration cb name binder)).mNameToService.find? name =
        some (s.newService env name binder allowIsolated dumpPriority) := by
      simp
    exact hs'.not_restricted hfind hallow
  | registered _ _ _ _ _ hkeeps heq herr hes =>
    obtain ⟨service, hfind, rfl⟩ := hes e ((emits_iff heq).mp he)
    cases hp
    intro hr
    exact hs.not_restricted hfind (ha herr hu service hfind) (hr.of_keeps hkeeps)

/-- An isolated process asks for a service that it may use. -/
theorem isolated_not_passed_allowed : ∃ s a s', Reachable step KeepsIsolation init s ∧
    s.step a = some s' ∧ Emits s s' (.returned 90001 [97] 1) ∧ ¬ Restricted s' (some 1) := by
  obtain ⟨s, hs, s', hstep, heq⟩ := exists_reachable step KeepsIsolation init
    [.call (.granting 7 1000 1) (.addService [97] (some 1) true 0)]
    (fun s => ∃ s' ∈ s.step (.call (.granting 8 90001 1) (.getService [97])),
      s'.history = s.history ++ [.returned 90001 [97] 1]) (by decide)
  have he : Emits s s' (.returned 90001 [97] 1) := ⟨_, heq, by simp⟩
  have ha : KeepsIsolation s (.call (.granting 8 90001 1) (.getService [97])) := trivial
  exact ⟨s, _, s', hs, hstep, he, isolated_not_passed hs ha hstep he rfl (by decide)⟩

/-- An isolated process that asks to be told of a service is given its binder. -/
theorem isolated_passed : ∃ s a s', Reachable step Free init s ∧ s.step a = some s' ∧
    ∃ e, Emits s s' e ∧ e.passes = some (90001, some 1) ∧ isIsolated 90001 = true ∧ Restricted s' (some 1) := by
  obtain ⟨s, hs, s', hstep, heq, service, hservice, hflags⟩ := exists_reachable step Free init
    [.call (.granting 7 1000 1) (.addService [97] (some 1) false 0)]
    (fun s => ∃ s' ∈ s.step (.call (.granting 8 90001 1) (.registerForNotifications [97] (some 2))),
      s'.history = s.history ++ [.onRegistration ⟨some 2, 90001⟩ [97] (some 1)] ∧
        ∃ service ∈ s'.mNameToService.find? [97], service.binder = some 1 ∧ service.allowIsolated = false) (by decide)
  exact ⟨s, _, s', hs, hstep, _, ⟨_, heq, mem_singleton_self _⟩, rfl, by decide, [97], service, hservice, hflags⟩

end Binder.ServiceManager
