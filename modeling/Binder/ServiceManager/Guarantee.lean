import Binder.ServiceManager.Registry

/-! A binder that was handed out stays registered until the next check of its clients. -/
namespace Binder.ServiceManager

open Lib List

variable {s s' : ServiceManager} {env : Env} {name : ServiceName}

/-- Whether a client of `name` may be unknown to the client check, after one more event: it is
from a hand-out to the next check. -/
def pendingAfter (name : ServiceName) (pending : Bool) : Event → Bool
  | .returned _ n _ => pending || n = name
  | .onRegistration _ n _ => pending || n = name
  | .checked n => pending && !decide (n = name)
  | _ => pending

def pending (name : ServiceName) (h : List Event) : Bool :=
  h.foldl (pendingAfter name) false

theorem pending_append (h es : List Event) :
    pending name (h ++ es) = es.foldl (pendingAfter name) (pending name h) :=
  foldl_append

/-- Events that do not change whether a client of `name` is pending. -/
def Event.IsQuiet (name : ServiceName) (e : Event) : Prop := ∀ p, pendingAfter name p e = p

variable {h es : List Event} {service : Service} {cb : ServiceCallback} {binder : Option IBinder}

theorem pending_append_of_quiet (hes : ∀ e ∈ es, e.IsQuiet name) : pending name (h ++ es) = pending name h := by
  rw [pending_append]
  induction es with
  | nil => rfl
  | cons e es ih =>
    have htail : ∀ e ∈ es, e.IsQuiet name := fun e' he' => hes e' (mem_cons_of_mem _ he')
    rw [foldl_cons, hes e mem_cons_self]
    exact ih htail

/-- Each service that was unregistered had been checked since it was last handed out. -/
def Kept (h : List Event) : Prop :=
  ∀ name h', h' ++ [.unregistered name] <+: h → pending name h' = false

theorem Kept.concat {e : Event} (hk : Kept h)
    (he : ∀ name, e = .unregistered name → pending name h = false) : Kept (h ++ [e]) := by
  intro name h' hprefix
  rcases prefix_concat_iff.mp hprefix with heq | hprefix
  · obtain ⟨rfl, hlast⟩ := append_inj' heq rfl
    cases hlast
    exact he name rfl
  · exact hk name h' hprefix

theorem Kept.append (hk : Kept h) (hes : ∀ e ∈ es, ∀ name, e ≠ .unregistered name) : Kept (h ++ es) := by
  induction es generalizing h with
  | nil => simpa using hk
  | cons e es ih =>
    have hhead : Kept (h ++ [e]) :=
      hk.concat fun name heq => absurd heq (hes e mem_cons_self name)
    have htail := ih hhead fun e' he' => hes e' (mem_cons_of_mem _ he')
    rwa [append_assoc] at htail

/-- A name with a pending client is added again only with a registration callback to tell, and
a callback is told of an existing service only if the service has its guarantee already. -/
def KeepsGuarantee (s : ServiceManager) : Action → Prop
  | .call env (.addService name binder _ _) =>
    addServiceError env name binder = none → pending name s.history = true → s.registrationCallbacks name ≠ []
  | .call env (.registerForNotifications name callback) =>
    registerForNotificationsError env name callback = none →
      ∀ service ∈ s.mNameToService.find? name, service.guaranteeClient = true
  | _ => True

instance (s : ServiceManager) (a : Action) : Decidable (KeepsGuarantee s a) := by
  induction a using Action.casesOn with
  | call _ c => induction c using Call.casesOn <;> dsimp only [KeepsGuarantee] <;> infer_instance
  | _ => exact .isTrue trivial

/-- Every registered service with a pending client has its guarantee. -/
structure Guarded (s : ServiceManager) : Prop where
  entry : ∀ name service, s.mNameToService.find? name = some service →
    pending name s.history = true → service.guaranteeClient = true
  kept : Kept s.history

theorem Guarded.log (h : Guarded s) (hquiet : ∀ name, ∀ e ∈ es, e.IsQuiet name)
    (hkept : Kept (s.history ++ es)) : Guarded (s.log es) where
  entry := by
    intro name service hs hp
    rw [log_history, pending_append_of_quiet (hquiet name)] at hp
    exact h.entry name service hs hp
  kept := hkept

/-- A hand-out of a service, after which its entry has the guarantee. -/
theorem Guarded.handOut (h : Guarded s)
    (hg : pending name (s.history ++ es) = true → service.guaranteeClient = true)
    (hquiet : ∀ k, k ≠ name → ∀ e ∈ es, e.IsQuiet k) (hkept : Kept (s.history ++ es)) :
    Guarded ((s.setService name service).log es) where
  entry := by
    intro k entry hs hp
    rw [log_mNameToService, setService_mNameToService, OrdMap.find?_insert] at hs
    split_ifs at hs with hk
    · cases hs
      subst hk
      exact hg hp
    · rw [log_history, setService_history, pending_append_of_quiet (hquiet k hk)] at hp
      exact h.entry k entry hs hp
  kept := hkept

theorem quiet_onRegistration {k : ServiceName}
    (hk : k ≠ name) : (Event.onRegistration cb name binder).IsQuiet k := by
  intro p
  simp [pendingAfter, hk.symm]

theorem Guarded.added (h : Guarded s) (hg : service.guaranteeClient = !(s.registrationCallbacks name).isEmpty)
    (hpending : pending name s.history = true → s.registrationCallbacks name ≠ []) :
    Guarded ((s.setService name service).log
      ((s.registrationCallbacks name).map fun cb => .onRegistration cb name binder)) := by
  refine h.handOut ?_ ?_ (h.kept.append (by simp))
  · intro hp
    rw [hg]
    cases hcbs : s.registrationCallbacks name with
    | nil =>
      rw [hcbs, map_nil, append_nil] at hp
      exact absurd hcbs (hpending hp)
    | cons => rfl
  · intro k hk e he
    obtain ⟨cb, -, rfl⟩ := mem_map.mp he
    exact quiet_onRegistration hk

theorem Guarded.registered {cbs : List ServiceCallback} (h : Guarded s)
    (hes : ∀ e ∈ es, ∃ service, s.mNameToService.find? name = some service ∧
      service.binder ≠ none ∧ e = .onRegistration cb name service.binder)
    (hg : ∀ service ∈ s.mNameToService.find? name, service.guaranteeClient = true) :
    Guarded ((s.setRegistrationCallbacks name cbs).log es) where
  entry := by
    intro k service hs hp
    by_cases hk : k = name
    · subst hk
      exact hg service hs
    · have hquiet : ∀ e ∈ es, e.IsQuiet k := by
        intro e he
        obtain ⟨service', -, -, rfl⟩ := hes e he
        exact quiet_onRegistration hk
      rw [log_history, setRegistrationCallbacks_history, pending_append_of_quiet hquiet] at hp
      exact h.entry k service hs hp
  kept := by
    refine h.kept.append ?_
    intro e he n heq
    obtain ⟨service', -, -, rfl⟩ := hes e he
    cases heq

theorem Guarded.unregistered (h : Guarded s)
    (hs : s.mNameToService.find? name = some service) (hg : service.guaranteeClient = false) :
    Guarded ((s.eraseService name).log [.unregistered name]) where
  entry := by
    intro k entry hk hp
    rw [log_mNameToService, eraseService_mNameToService, OrdMap.find?_erase] at hk
    split_ifs at hk with heq
    rw [log_history, eraseService_history, pending_append_of_quiet (by simp [Event.IsQuiet, pendingAfter])] at hp
    exact h.entry k entry hk hp
  kept := by
    refine h.kept.concat ?_
    rintro n heq
    cases heq
    by_contra hp
    have hguarantee := h.entry name service hs (by simpa using hp)
    simp [hg] at hguarantee

theorem Guarded.settles {t : ServiceManager} (h : Guarded s) (hs : Settles s name t) :
    Guarded (t.log [.checked name]) := by
  have hfree : pending name (t.history ++ [.checked name]) = false := by
    simp [pending_append, pendingAfter]
  have hquiet : ∀ k, k ≠ name → (Event.checked name).IsQuiet k := by
    intro k hk p
    simp [pendingAfter, hk.symm]
  -- the check itself ends the wait for `name`; no other entry changes
  cases hs with
  | skipped =>
    constructor
    · intro k service hs hp
      by_cases hk : k = name
      · subst hk
        exact absurd (hfree.symm.trans hp) Bool.false_ne_true
      · rw [log_history, pending_append_of_quiet (by simpa using hquiet k hk)] at hp
        exact h.entry k service hs hp
    · exact h.kept.append (by simp)
  | settled =>
    constructor
    · intro k entry hs hp
      by_cases hk : k = name
      · subst hk
        exact absurd (hfree.symm.trans hp) Bool.false_ne_true
      · rw [log_mNameToService, settle, setService_mNameToService, OrdMap.find?_insert, if_neg hk] at hs
        rw [log_history, pending_append_of_quiet (by simpa using hquiet k hk), settle,
          setService_history, log_history, pending_append_of_quiet] at hp
        · exact h.entry k entry hs hp
        · intro e he p
          obtain ⟨v, -, he⟩ := mem_flatMap.mp he
          obtain ⟨cb, -, rfl⟩ := mem_map.mp he
          rfl
    · refine Kept.append ?_ (by simp)
      refine h.kept.append ?_
      intro e he n heq
      obtain ⟨v, -, he⟩ := mem_flatMap.mp he
      obtain ⟨cb, -, rfl⟩ := mem_map.mp he
      cases heq

theorem Guarded.step {a : Action} (h : Guarded s) (ha : KeepsGuarantee s a)
    (hstep : s.step a = some s') : Guarded s' := by
  cases step_moves hstep with
  | unchanged => exact h
  | started => exact h.log (by simp [Event.IsQuiet, pendingAfter]) (h.kept.append (by simp))
  | returned =>
    refine h.handOut (fun _ => rfl) ?_ (h.kept.append (by simp))
    intro k hk e he p
    rw [mem_singleton.mp he]
    simp [pendingAfter, hk.symm]
  | added _ _ _ _ _ he => exact h.added rfl (ha he)
  | registered _ _ _ _ he hes => exact h.registered hes (ha he)
  | removed =>
    constructor
    · rw [removeRegistrationCallback_mNameToService, removeRegistrationCallback_history]
      exact h.entry
    · rw [removeRegistrationCallback_history]
      exact h.kept
  | attached => exact ⟨h.entry, h.kept⟩
  | refused _ name service =>
    have hlog : Guarded ((s.setService name service.guarantee).log []) :=
      h.handOut (fun _ => rfl) (by simp) (by simpa using h.kept)
    rwa [log_nil] at hlog
  | unregistered _ _ _ hs hg => exact h.unregistered hs hg
  | died who =>
    refine ⟨?_, h.kept⟩
    intro k service hk hp
    obtain ⟨entry, hentry, rfl⟩ : ∃ entry, s.mNameToService.find? k = some entry ∧ service = entry :=
      Keeps.binderDied (f := id) who k service hk
    exact h.entry k service hentry hp
  | checked _ _ hc => exact hc.invariant Guarded h Guarded.settles

/-- Under the condition a service is never unregistered between a hand-out of its binder and the
next check of its clients. -/
theorem unregistered_after_check (h : Reachable step KeepsGuarantee init s) {name : ServiceName}
    {earlier : List Event} (hu : earlier ++ [.unregistered name] <+: s.history) :
    pending name earlier = false := by
  have hinit : Guarded init := ⟨by simp [init], by simp [init, Kept]⟩
  have hguarded := h.invariant Guarded hinit fun _ _ _ hs ha hstep => hs.step ha hstep
  exact hguarded.kept name earlier hu

/-- A service that was handed out is checked, then unregistered. -/
theorem unregistered_after_check_example : ∃ s earlier, Reachable step KeepsGuarantee init s ∧
    earlier ++ [.unregistered [97]] <+: s.history ∧ .returned 1000 [97] 1 ∈ earlier ∧
    pending [97] earlier = false := by
  obtain ⟨s, hs, hprefix⟩ := exists_reachable step KeepsGuarantee init
    (served [97] ++ [.call (.granting 8 1000 1) (.getService [97]),
      .handleClientCallbacks fun _ => 1,
      .call (.granting 7 1000 1) (.tryUnregisterService [97] (some 1))])
    (fun s => [.returned 1000 [97] 1, .onClients ⟨some 3, some 1⟩ [97] (some 1) true,
      .onClients ⟨some 3, some 1⟩ [97] (some 1) false, .checked [97]] ++
        [.unregistered [97]] <+: s.history) (by decide)
  exact ⟨s, _, hs, hprefix, by decide, unregistered_after_check hs hprefix⟩

/-- A callback is told of an existing service, which is unregistered before any check. -/
theorem unregistered_while_pending : ∃ s earlier, Reachable step Free init s ∧
    earlier ++ [.unregistered [97]] <+: s.history ∧ pending [97] earlier = true := by
  obtain ⟨s, hs, hprefix⟩ := exists_reachable step Free init
    (served [97] ++ [.call (.granting 8 1000 1) (.registerForNotifications [97] (some 2)),
      .call (.granting 7 1000 2) (.tryUnregisterService [97] (some 1))])
    (fun s => [.onRegistration ⟨some 2, 1000⟩ [97] (some 1)] ++ [.unregistered [97]] <+: s.history)
    (by decide)
  exact ⟨s, _, hs, hprefix, by decide⟩

end Binder.ServiceManager
