import Binder.ServiceManager.Clients

/-! The values a client callback is told for one name alternate, starting with `true`. -/
namespace Binder.ServiceManager

open Lib List

variable {s s' : ServiceManager} {env : Env} {name : ServiceName} {cb : Option IBinder}

/-- The values `cb` was told for `name`, the oldest first. -/
def told (cb : Option IBinder) (name : ServiceName) (h : List Event) : List Bool :=
  h.filterMap fun
    | .onClients c n _ v => if c.callback = cb ∧ n = name then some v else none
    | _ => none

/-- What `cb` believes of `name`; before it is told anything there are no clients. -/
def lastTold (cb : Option IBinder) (name : ServiceName) (h : List Event) : Bool :=
  (told cb name h).getLastD false

theorem told_append (h h' : List Event) : told cb name (h ++ h') = told cb name h ++ told cb name h' :=
  filterMap_append

theorem lastTold_append (h h' : List Event) :
    lastTold cb name (h ++ h') = (told cb name h').getLastD (lastTold cb name h) := by
  rw [lastTold, told_append, getLastD_append]
  rfl

theorem told_eq_nil {es : List Event} (hes : ∀ e ∈ es, e.IsOnClients = false) : told cb name es = [] := by
  refine filterMap_eq_nil_iff.mpr ?_
  intro e he
  have := hes e he
  cases e <;> simp_all [Event.IsOnClients]

def IsRegistered (cb : Option IBinder) (s : ServiceManager) (name : ServiceName) : Prop :=
  ∃ c ∈ s.clientCallbacks name, c.callback = cb
deriving Decidable

/-- A round of notifications tells `cb` once for each of its registrations. -/
theorem told_notifications (callbacks : List ClientCallback) (k : ServiceName) (service : Service)
    (v : Bool) : told cb k (notifications callbacks name service v) =
      if name = k then List.replicate (callbacks.countP fun c => c.callback = cb) v else [] := by
  induction callbacks with
  | nil => simp [notifications, told]
  | cons c callbacks ih =>
    unfold notifications told at ih ⊢
    rw [map_cons, filterMap_cons, ih]
    by_cases hk : name = k <;> by_cases hc : c.callback = cb <;> simp [hk, hc, replicate_succ]

theorem told_settled (callbacks : List ClientCallback) (k : ServiceName) (service : Service)
    (values : List Bool) (hone : callbacks.countP (fun c => c.callback = cb) ≤ 1) :
    told cb k (values.flatMap (notifications callbacks name service)) =
      if name = k ∧ ∃ c ∈ callbacks, c.callback = cb then values else [] := by
  induction values with
  | nil => simp [told]
  | cons v values ih =>
    rw [flatMap_cons, told_append, ih, told_notifications]
    by_cases hk : name = k
    · by_cases hreg : ∃ c ∈ callbacks, c.callback = cb
      · have hpos : 0 < callbacks.countP fun c => c.callback = cb := by
          simpa using hreg
        have hcount : callbacks.countP (fun c => c.callback = cb) = 1 := by omega
        simp [hk, hreg, hcount]
      · have hcount : callbacks.countP (fun c => c.callback = cb) = 0 := by
          simpa using hreg
        simp [hk, hreg, hcount]
    · simp [hk]

/-- The condition on an action for one callback: an entry is replaced only while the callback
believes that there are no clients, and it is registered once, when it agrees with the entry. -/
def SteadyFor (cb : Option IBinder) (s : ServiceManager) : Action → Prop
  | .call env (.addService name binder _ _) =>
    addServiceError env name binder = none → IsRegistered cb s name → lastTold cb name s.history = false
  | .call env (.registerClientCallback name service c) =>
    s.registerClientCallbackError env name service c = none → c = cb →
      ¬ IsRegistered cb s name ∧ ∀ entry, s.mNameToService.find? name = some entry →
        lastTold cb name s.history = entry.hasClients
  | _ => True

/-- The entry of a name records what `cb` was told last. -/
structure Tracks (cb : Option IBinder) (s : ServiceManager) : Prop where
  chain : ∀ name, (false :: told cb name s.history).IsChain (· ≠ ·)
  record : ∀ name service, s.mNameToService.find? name = some service → IsRegistered cb s name →
    lastTold cb name s.history = service.hasClients
  once : ∀ name, (s.clientCallbacks name).countP (fun c => c.callback = cb) ≤ 1

theorem Tracks.init (cb : Option IBinder) : Tracks cb init where
  chain _ := isChain_singleton _
  record := by simp [ServiceManager.init]
  once := by simp [ServiceManager.init, clientCallbacks]

theorem Tracks.shrinks (h : Tracks cb s) (hs : Shrinks s s') : Tracks cb s' := by
  obtain ⟨es, heq, hes⟩ := hs.history
  have htold : ∀ name, told cb name s'.history = told cb name s.history := by
    intro name
    rw [heq, told_append, told_eq_nil hes, append_nil]
  constructor
  · intro name
    rw [htold]
    exact h.chain name
  · intro name service' hfind hreg
    obtain ⟨service, hservice, hkeep⟩ := hs.services name service' hfind
    obtain ⟨c, hmem, hcb⟩ := hreg
    have hc : service'.hasClients = service.hasClients := congrArg Prod.snd hkeep
    rw [lastTold, htold, hc]
    exact h.record name service hservice ⟨c, (hs.clients name).subset hmem, hcb⟩
  · intro name
    exact (hs.clients name).countP_le.trans (h.once name)

theorem Tracks.added {service : Service} {es : List Event} (h : Tracks cb s) (hc : service.hasClients = false)
    (hlast : IsRegistered cb s name → lastTold cb name s.history = false)
    (hes : ∀ e ∈ es, e.IsOnClients = false) : Tracks cb ((s.setService name service).log es) := by
  have htold : ∀ k, told cb k (s.history ++ es) = told cb k s.history := by
    intro k
    rw [told_append, told_eq_nil hes, append_nil]
  constructor
  · intro k
    rw [log_history, setService_history, htold]
    exact h.chain k
  · intro k entry hfind hreg
    rw [log_history, setService_history, lastTold, htold]
    rw [log_mNameToService, setService_mNameToService, OrdMap.find?_insert] at hfind
    split_ifs at hfind with hk
    · cases hfind
      subst hk
      rw [hc]
      exact hlast hreg
    · exact h.record k entry hfind hreg
  · exact h.once

theorem Tracks.attached {service c : Option IBinder} (h : Tracks cb s) (hnew : c = cb → ¬ IsRegistered cb s name ∧
      ∀ entry, s.mNameToService.find? name = some entry → lastTold cb name s.history = entry.hasClients) :
    Tracks cb (s.setClientCallbacks name (s.clientCallbacks name ++ [⟨c, service⟩])) := by
  constructor
  · exact h.chain
  · intro k entry hfind hreg
    obtain ⟨d, hd, hdcb⟩ := hreg
    rw [clientCallbacks_setClientCallbacks] at hd
    split_ifs at hd with hk
    · subst hk
      rcases mem_append.mp hd with hd | hd
      · exact h.record k entry hfind ⟨d, hd, hdcb⟩
      · have hcb : c = cb := by rw [← hdcb, mem_singleton.mp hd]
        exact (hnew hcb).2 entry hfind
    · exact h.record k entry hfind ⟨d, hd, hdcb⟩
  · intro k
    rw [clientCallbacks_setClientCallbacks]
    split_ifs with hk
    · rw [countP_append]
      by_cases hcb : c = cb
      · have hzero : (s.clientCallbacks name).countP (fun c => c.callback = cb) = 0 := by
          rw [countP_eq_zero]
          intro d hd hdcb
          exact (hnew hcb).1 ⟨d, hd, by simpa using hdcb⟩
        simp [hzero, hcb]
      · have hone := h.once name
        simpa [hcb] using hone
    · exact h.once k

theorem Tracks.settles {t : ServiceManager} (h : Tracks cb s) (hs : Settles s name t) :
    Tracks cb (t.log [.checked name]) := by
  have hlog : Shrinks t (t.log [.checked name]) := .log (by simp [Event.IsOnClients])
  refine Tracks.shrinks ?_ hlog
  cases hs with
  | skipped => exact h
  | settled service callbacks values hfind hc hchain =>
    have hcbs := clientCallbacks_of_find? hc
    have hnew : ∀ k, told cb k (values.flatMap (notifications callbacks name service)) =
        if name = k ∧ IsRegistered cb s name then values else [] := by
      intro k
      rw [told_settled callbacks k service values (hcbs ▸ h.once name)]
      simp only [IsRegistered, hcbs]
    constructor
    · intro k
      rw [settle, setService_history, log_history, told_append, isChain_cons_append, hnew]
      refine ⟨h.chain k, ?_⟩
      split_ifs with hk
      · obtain ⟨rfl, hreg⟩ := hk
        have hlast := h.record name service hfind hreg
        unfold lastTold at hlast
        rw [hlast]
        exact hchain
      · exact isChain_singleton _
    · intro k entry hentry hreg
      rw [settle, setService_history, log_history, lastTold_append, hnew]
      rw [settle, setService_mNameToService, OrdMap.find?_insert] at hentry
      split_ifs at hentry with hk
      · cases hentry
        subst hk
        have hlast := h.record k service hfind hreg
        rw [if_pos ⟨rfl, hreg⟩, hlast]
      · rw [if_neg fun hn => hk hn.1.symm]
        exact h.record k entry hentry hreg
    · exact h.once

theorem Tracks.step {a : Action} (h : Tracks cb s) (ha : SteadyFor cb s a)
    (hs : s.step a = some s') : Tracks cb s' := by
  cases (step_moves hs).clientMoves with
  | shrunk _ _ hshrinks => exact h.shrinks hshrinks
  | added _ _ _ _ _ he =>
    refine h.added rfl (ha he) ?_
    intro e hmem
    obtain ⟨c, -, rfl⟩ := mem_map.mp hmem
    rfl
  | attached _ _ _ _ he => exact h.attached (ha he)
  | checked _ _ hc => exact hc.invariant (Tracks cb) h Tracks.settles

def Steady (s : ServiceManager) : Action → Prop
  | .call env (.addService name binder _ _) =>
    addServiceError env name binder = none →
      ∀ c ∈ s.clientCallbacks name, lastTold c.callback name s.history = false
  | .call env (.registerClientCallback name service cb) =>
    s.registerClientCallbackError env name service cb = none → (∀ c ∈ s.clientCallbacks name, c.callback ≠ cb) ∧
        ∀ entry ∈ s.mNameToService.find? name, lastTold cb name s.history = entry.hasClients
  | _ => True

instance (s : ServiceManager) (a : Action) : Decidable (Steady s a) := by
  induction a using Action.casesOn with
  | call _ c => induction c using Call.casesOn <;> dsimp only [Steady] <;> infer_instance
  | _ => exact .isTrue trivial

theorem Steady.steadyFor {a : Action} (h : Steady s a) (cb : Option IBinder) : SteadyFor cb s a := by
  unfold SteadyFor
  split
  · rintro he ⟨c, hc, rfl⟩
    exact h he c hc
  · rintro he rfl
    refine ⟨?_, (h he).2⟩
    rintro ⟨c, hc, hcb⟩
    exact (h he).1 c hc hcb
  · trivial

/-- If names are added again only while their callbacks believe that there are no clients, and
callbacks are registered once, in agreement with the entry, then every callback is told `true`
first and every value differs from the one before. -/
theorem onClients_alternate (h : Reachable step Steady init s) (cb : Option IBinder)
    (name : ServiceName) : (false :: told cb name s.history).IsChain (· ≠ ·) := by
  have htracks := h.invariant (Tracks cb) (.init cb)
    fun _ _ _ hs ha hstep => hs.step (ha.steadyFor cb) hstep
  exact htracks.chain name

/-- A service gets a client, loses it, is unregistered and added again. -/
theorem onClients_alternate_readded : ∃ s, Reachable step Steady init s ∧
    told (some 3) [97] s.history = [true, false, true] ∧
    (false :: told (some 3) [97] s.history).IsChain (· ≠ ·) := by
  obtain ⟨s, hs, htold⟩ := exists_reachable step Steady init
    (served [97] ++ [.handleClientCallbacks fun _ => 5,
      .handleClientCallbacks fun _ => 1,
      .call (.granting 7 1000 1) (.tryUnregisterService [97] (some 1)),
      .call (.granting 7 1000 1) (.addService [97] (some 1) false 0),
      .handleClientCallbacks fun _ => 5])
    (fun s => told (some 3) [97] s.history = [true, false, true]) (by decide)
  exact ⟨s, hs, htold, onClients_alternate hs _ _⟩

/-- The service is added again while it has a client: the callback is told `true` twice. -/
theorem onClients_repeated : ∃ s, Reachable step Free init s ∧ told (some 3) [97] s.history = [true, true] :=
  exists_reachable step Free init
    (served [97] ++ [.handleClientCallbacks fun _ => 5,
      .call (.granting 7 1000 1) (.addService [97] (some 1) false 0),
      .handleClientCallbacks fun _ => 5]) _ (by decide)

end Binder.ServiceManager
