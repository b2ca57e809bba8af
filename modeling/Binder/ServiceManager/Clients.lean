import Binder.ServiceManager.Registry

/-! What client callbacks are told. A callback list outlives the entry of its name, and the
record of what was told is in the entry. -/
namespace Binder.ServiceManager

open Lib List

variable {s s' : ServiceManager} {env : Env} {name : ServiceName}

def Event.IsOnClients : Event → Bool
  | .onClients .. => true
  | _ => false

/-- A move that tells no client callback anything: entries and callbacks may go, entries keep
what the callbacks know of them. -/
structure Shrinks (s s' : ServiceManager) : Prop where
  services : Keeps (fun service => (service.binder, service.hasClients)) s s'
  clients : ∀ name, (s'.clientCallbacks name).Sublist (s.clientCallbacks name)
  history : ∃ es : List Event, s'.history = s.history ++ es ∧ ∀ e ∈ es, e.IsOnClients = false

inductive ClientMoves (s : ServiceManager) : Action → ServiceManager → Prop
  | shrunk (a : Action) (t : ServiceManager) : Shrinks s t → ClientMoves s a t
  | added (env : Env) (name : ServiceName) (binder : Option IBinder) (allowIsolated : Bool)
      (dumpPriority : BitVec 32) :
      addServiceError env name binder = none →
      ClientMoves s (.call env (.addService name binder allowIsolated dumpPriority))
        ((s.setService name (s.newService env name binder allowIsolated dumpPriority)).log
          ((s.registrationCallbacks name).map fun cb => .onRegistration cb name binder))
  | attached (env : Env) (name : ServiceName) (service cb : Option IBinder) :
      s.registerClientCallbackError env name service cb = none →
      ClientMoves s (.call env (.registerClientCallback name service cb))
        (s.setClientCallbacks name (s.clientCallbacks name ++ [⟨cb, service⟩]))
  | checked (a : Action) (t : ServiceManager) : Checks s t → ClientMoves s a t

theorem Shrinks.of_keeps (h : Keeps (fun service => (service.binder, service.hasClients)) s s')
    (hc : s'.mNameToClientCallback = s.mNameToClientCallback) (hh : s'.history = s.history) :
    Shrinks s s' where
  services := h
  clients name := by
    unfold clientCallbacks
    rw [hc]
  history := ⟨[], by rw [hh, append_nil], by simp⟩

variable {es : List Event} {t : ServiceManager} {service : Service} {a : Action}

theorem Shrinks.log (hes : ∀ e ∈ es, e.IsOnClients = false) : Shrinks s (s.log es) where
  services := .of_eq rfl
  clients _ := List.Sublist.refl _
  history := ⟨es, rfl, hes⟩

theorem Shrinks.trans (h : Shrinks s t) (h' : Shrinks t s') : Shrinks s s' where
  services := h.services.trans h'.services
  clients name := (h'.clients name).trans (h.clients name)
  history := by
    obtain ⟨es, heq, hes⟩ := h.history
    obtain ⟨es', heq', hes'⟩ := h'.history
    refine ⟨es ++ es', by rw [heq', heq, append_assoc], ?_⟩
    intro e he
    exact (mem_append.mp he).elim (hes e) (hes' e)

theorem Shrinks.guarantee (hs : s.mNameToService.find? name = some service) :
    Shrinks s (s.setService name service.guarantee) :=
  .of_keeps (.setService hs rfl) rfl rfl

theorem binderDied_clientCallbacks (s : ServiceManager) (who : IBinder) (name : ServiceName) :
    (s.binderDied who).clientCallbacks name = removeCallback (some who) (s.clientCallbacks name) := by
  unfold clientCallbacks ServiceManager.binderDied
  rw [OrdMap.find?_filterMap]
  cases s.mNameToClientCallback.find? name with
  | none => rfl
  | some =>
    simp only [Option.bind_some, dropCallback, Option.getD_some]
    split_ifs with hempty
    · exact (isEmpty_iff.mp hempty).symm
    · rfl

theorem Shrinks.binderDied (who : IBinder) : Shrinks s (s.binderDied who) where
  services := .binderDied who
  clients name := by
    rw [binderDied_clientCallbacks]
    exact filter_sublist
  history := ⟨[], (append_nil _).symm, by simp⟩

theorem Moves.clientMoves (h : Moves s a s') : ClientMoves s a s' := by
  cases h with
  | unchanged => exact .shrunk a _ (.of_keeps (.of_eq rfl) rfl rfl)
  | started => exact .shrunk a _ (.log (by simp [Event.IsOnClients]))
  | returned _ _ _ _ _ hs =>
    exact .shrunk a _ ((Shrinks.guarantee hs).trans (.log (by simp [Event.IsOnClients])))
  | added env name binder allowIsolated dumpPriority he =>
    exact .added env name binder allowIsolated dumpPriority he
  | registered env name callback es _ hes =>
    have hlog : ∀ e ∈ es, e.IsOnClients = false := by
      intro e hmem
      obtain ⟨service, -, -, rfl⟩ := hes e hmem
      rfl
    have hset : Shrinks s (s.setRegistrationCallbacks name
        (s.registrationCallbacks name ++ [⟨callback, env.ctx.uid⟩])) :=
      .of_keeps (.of_eq rfl) rfl rfl
    exact .shrunk _ _ (hset.trans (.log hlog))
  | removed =>
    exact .shrunk a _ (.of_keeps (.of_eq (removeRegistrationCallback_mNameToService _ _))
      (removeRegistrationCallback_mNameToClientCallback _ _)
      (removeRegistrationCallback_history _ _))
  | attached env name service cb he => exact .attached env name service cb he
  | refused _ _ _ hs => exact .shrunk a _ (.guarantee hs)
  | unregistered _ name =>
    have herase : Shrinks s (s.eraseService name) := .of_keeps .eraseService rfl rfl
    exact .shrunk a _ (herase.trans (.log (by simp [Event.IsOnClients])))
  | died who => exact .shrunk _ _ (.binderDied who)
  | checked _ _ hc => exact .checked a _ hc

theorem clientCallbacks_of_find? {cbs : List ClientCallback}
    (h : s.mNameToClientCallback.find? name = some cbs) : s.clientCallbacks name = cbs := by
  simp [clientCallbacks, h]

theorem clientCallbacks_setClientCallbacks (cbs : List ClientCallback) (k : ServiceName) :
    (s.setClientCallbacks name cbs).clientCallbacks k = if k = name then cbs else s.clientCallbacks k := by
  unfold clientCallbacks
  rw [setClientCallbacks_mNameToClientCallback, OrdMap.find?_insert]
  split <;> rfl

/-! ### The binder that is passed -/

/-- Re-adding a name leaves its client callbacks with the binder they were registered for. -/
def KeepsBinder (s : ServiceManager) : Action → Prop
  | .call env (.addService name binder _ _) =>
    addServiceError env name binder = none → ∀ cb ∈ s.clientCallbacks name, cb.origin = binder
  | _ => True

instance (s : ServiceManager) (a : Action) : Decidable (KeepsBinder s a) := by
  induction a using Action.casesOn with
  | call _ c => induction c using Call.casesOn <;> dsimp only [KeepsBinder] <;> infer_instance
  | _ => exact .isTrue trivial

/-- The callbacks of a registered name were registered for its binder, and were told of no
other. -/
structure Loyal (s : ServiceManager) : Prop where
  entry : ∀ name service, s.mNameToService.find? name = some service →
    ∀ cb ∈ s.clientCallbacks name, cb.origin = service.binder
  told : ∀ cb name binder hasClients, .onClients cb name binder hasClients ∈ s.history → binder = cb.origin

theorem Loyal.shrinks (h : Loyal s) (hs : Shrinks s s') : Loyal s' where
  entry := by
    intro name service' hfind cb hcb
    obtain ⟨service, hservice, heq⟩ := hs.services name service' hfind
    have hb : service'.binder = service.binder := congrArg Prod.fst heq
    rw [hb]
    exact h.entry name service hservice cb ((hs.clients name).subset hcb)
  told := by
    intro cb name binder hasClients hmem
    obtain ⟨es, heq, hes⟩ := hs.history
    rw [heq] at hmem
    rcases mem_append.mp hmem with hmem | hmem
    · exact h.told cb name binder hasClients hmem
    · exact absurd (hes _ hmem) (by simp [Event.IsOnClients])

theorem Loyal.added {binder : Option IBinder} (h : Loyal s) (hb : service.binder = binder)
    (hkeep : ∀ cb ∈ s.clientCallbacks name, cb.origin = binder)
    (hes : ∀ e ∈ es, e.IsOnClients = false) : Loyal ((s.setService name service).log es) where
  entry := by
    intro k entry hfind cb hcb
    rw [log_mNameToService, setService_mNameToService, OrdMap.find?_insert] at hfind
    split_ifs at hfind with hk
    · cases hfind
      subst hk
      rw [hb]
      exact hkeep cb hcb
    · exact h.entry k entry hfind cb hcb
  told := by
    intro cb k b hasClients hmem
    rcases mem_append.mp hmem with hmem | hmem
    · exact h.told cb k b hasClients hmem
    · exact absurd (hes _ hmem) (by simp [Event.IsOnClients])

theorem Loyal.attached {service cb : Option IBinder} (h : Loyal s)
    (he : s.registerClientCallbackError env name service cb = none) :
    Loyal (s.setClientCallbacks name (s.clientCallbacks name ++ [⟨cb, service⟩])) where
  entry := by
    intro k entry hfind c hc
    rw [clientCallbacks_setClientCallbacks] at hc
    split_ifs at hc with hk
    · subst hk
      rcases mem_append.mp hc with hc | hc
      · exact h.entry k entry hfind c hc
      · obtain ⟨-, entry', hentry, -, hb⟩ := registerClientCallbackError_eq_none he
        cases hfind.symm.trans hentry
        rw [mem_singleton.mp hc, hb]
    · exact h.entry k entry hfind c hc
  told := h.told

theorem mem_settled {callbacks : List ClientCallback} {told : List Bool}
    {e : Event} (h : e ∈ told.flatMap (notifications callbacks name service)) :
    ∃ cb ∈ callbacks, ∃ v ∈ told, e = .onClients cb name service.binder v := by
  obtain ⟨v, hv, he⟩ := mem_flatMap.mp h
  obtain ⟨cb, hcb, rfl⟩ := mem_map.mp he
  exact ⟨cb, hcb, v, hv, rfl⟩

theorem Loyal.settles (h : Loyal s) (hs : Settles s name t) : Loyal (t.log [.checked name]) := by
  have hlog : Shrinks t (t.log [.checked name]) := .log (by simp [Event.IsOnClients])
  refine Loyal.shrinks ?_ hlog
  cases hs with
  | skipped => exact h
  | settled service _ told hfind hc =>
    constructor
    · intro k entry hk cb hcb
      rw [settle, setService_mNameToService, OrdMap.find?_insert] at hk
      split_ifs at hk with heq
      · cases hk
        exact h.entry k service (heq ▸ hfind) cb hcb
      · exact h.entry k entry hk cb hcb
    · intro cb k binder hasClients hmem
      rcases mem_append.mp hmem with hmem | hmem
      · exact h.told cb k binder hasClients hmem
      · obtain ⟨c, hcb, v, -, heq⟩ := mem_settled hmem
        rw [← clientCallbacks_of_find? hc] at hcb
        cases heq
        exact (h.entry name service hfind cb hcb).symm

theorem Loyal.step (h : Loyal s) (ha : KeepsBinder s a) (hs : s.step a = some s') : Loyal s' := by
  cases (step_moves hs).clientMoves with
  | shrunk _ _ hshrinks => exact h.shrinks hshrinks
  | added _ _ _ _ _ he =>
    refine h.added rfl (ha he) ?_
    intro e hmem
    obtain ⟨cb, -, rfl⟩ := mem_map.mp hmem
    rfl
  | attached _ _ _ _ he => exact h.attached he
  | checked _ _ hc => exact hc.invariant Loyal h Loyal.settles

/-- If no name is added again with a binder other than the one its client callbacks were
registered for, a callback is only told of the binder it was registered for. -/
theorem onClients_binder (h : Reachable step KeepsBinder init s) {cb : ClientCallback}
    {name : ServiceName} {binder : Option IBinder} {hasClients : Bool}
    (hmem : .onClients cb name binder hasClients ∈ s.history) : binder = cb.origin := by
  have hinit : Loyal init := ⟨by simp [init], by simp [init]⟩
  have hloyal := h.invariant Loyal hinit fun _ _ _ hs ha hstep => hs.step ha hstep
  exact hloyal.told cb name binder hasClients hmem

/-- The service is added again after it was unregistered, and gets a client. -/
theorem onClients_binder_readded : ∃ s cb, Reachable step KeepsBinder init s ∧
    .onClients cb [97] (some 1) true ∈ s.history ∧ some 1 = cb.origin := by
  obtain ⟨s, hs, hmem⟩ := exists_reachable step KeepsBinder init
    (served [97] ++ [.call (.granting 7 1000 1) (.tryUnregisterService [97] (some 1)),
      .call (.granting 7 1000 1) (.addService [97] (some 1) false 0),
      .handleClientCallbacks fun _ => 5])
    (fun s => .onClients ⟨some 3, some 1⟩ [97] (some 1) true ∈ s.history) (by decide)
  exact ⟨s, _, hs, hmem, onClients_binder hs hmem⟩

/-- Another process takes over the name: the callback of the first one is told of the new
binder. -/
theorem onClients_other_binder : ∃ s, Reachable step Free init s ∧
    .onClients ⟨some 3, some 1⟩ [97] (some 2) true ∈ s.history :=
  exists_reachable step Free init
    (served [97] ++ [.call (.granting 8 1000 1) (.addService [97] (some 2) false 0),
      .handleClientCallbacks fun _ => 5]) _ (by decide)

end Binder.ServiceManager
