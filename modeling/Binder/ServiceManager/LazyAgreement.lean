import Binder.ServiceManager.LazyRegistrar

/-! The registrar's record of a registration is the value last handled for it, so the fatal
checks of `onClients` follow from what service manager sends. -/
namespace Binder.LazyRegistrar

open Lib ServiceManager List

variable {s s' : System} {self : IBinder} {name : ServiceName}

theorem sentTo_append (h h' : List Event) : sentTo self (h ++ h') = sentTo self h ++ sentTo self h' :=
  filterMap_append

def valuesFor (name : ServiceName) (ms : List Message) : List Bool :=
  ms.filterMap fun m => if m.name = name then some m.clients else none

theorem valuesFor_append (ms ms' : List Message) :
    valuesFor name (ms ++ ms') = valuesFor name ms ++ valuesFor name ms' :=
  filterMap_append

theorem valuesFor_cons (m : Message) (ms : List Message) : valuesFor name (m :: ms) =
      if m.name = name then m.clients :: valuesFor name ms else valuesFor name ms := by
  unfold valuesFor
  by_cases hm : m.name = name <;> simp [hm]

theorem told_eq_valuesFor (h : List Event) : told (some self) name h = valuesFor name (sentTo self h) := by
  unfold told valuesFor sentTo
  rw [filterMap_filterMap]
  congr 1
  funext e
  cases e with
  | onClients cb =>
    by_cases hcb : cb.callback = some self <;> simp [hcb]
  | _ => rfl

theorem mem_sentTo {h : List Event} {m : Message} (hm : m ∈ sentTo self h) :
    ∃ cb, cb.callback = some self ∧ .onClients cb m.name m.service m.clients ∈ h := by
  obtain ⟨e, he, heq⟩ := mem_filterMap.mp hm
  cases e with
  | onClients cb =>
    dsimp only at heq
    split_ifs at heq with hcb
    cases heq
    exact ⟨cb, hcb, he⟩
  | _ => cases heq

/-- The condition on an action: service manager replaces an entry for which the registrar
listens only by the same service, while the last value sent for it is not `true`; and a service
is registered under one name only, for which no clients are on record yet. -/
def Orderly (s : System) (a : Action) : Prop :=
  match s.managerAction a with
  | some (.call env (.addService name binder _ _)) =>
    addServiceError env name binder = none → IsRegistered (some s.self) s.manager name →
      lastTold (some s.self) name s.manager.history = false ∧
      ∀ r ∈ s.registrar.mRegisteredServices.find? name, r.service = binder
  | some (.call env (.registerClientCallback name service cb)) =>
    s.manager.registerClientCallbackError env name service cb = none → cb = some s.self →
      (∀ entry ∈ s.manager.mNameToService.find? name, entry.hasClients = false) ∧
      ∀ e ∈ s.registrar.mRegisteredServices.entries, e.2.service ≠ service
  | _ => True

instance (s : System) (a : Action) : Decidable (Orderly s a) := by
  unfold Orderly
  split <;> infer_instance

/-- The registrar and service manager agree on the registrations and on the messages. -/
structure Agreed (s : System) : Prop where
  wellFormed : WellFormed s.manager
  tracks : Tracks (some s.self) s.manager
  recorded : ∀ name, IsRegistered (some s.self) s.manager name →
    ∃ r, s.registrar.mRegisteredServices.find? name = some r
  same : ∀ name entry r, s.manager.mNameToService.find? name = some entry →
    IsRegistered (some s.self) s.manager name →
    s.registrar.mRegisteredServices.find? name = some r → entry.binder = r.service
  distinct : ∀ name name' r r', s.registrar.mRegisteredServices.find? name = some r →
    s.registrar.mRegisteredServices.find? name' = some r' → r.service = r'.service → name = name'
  present : ∀ name r, s.registrar.mRegisteredServices.find? name = some r → r.service ≠ none
  sent : ∀ m ∈ sentTo s.self s.manager.history,
    ∃ r, s.registrar.mRegisteredServices.find? m.name = some r ∧ m.service = r.service
  handled_le : s.handled ≤ (sentTo s.self s.manager.history).length
  clients : ∀ name r, s.registrar.mRegisteredServices.find? name = some r →
    r.clients = (valuesFor name ((sentTo s.self s.manager.history).take s.handled)).getLastD false

theorem Agreed.start (self : IBinder) (pid : ℤ) : Agreed (.start self pid) where
  wellFormed := .init
  tracks := .init _
  recorded := by simp [System.start, IsRegistered, clientCallbacks, ServiceManager.init]
  same := by simp [System.start, ServiceManager.init]
  distinct := by simp [System.start, init]
  present := by simp [System.start, init]
  sent := by simp [System.start, ServiceManager.init, sentTo]
  handled_le := Nat.zero_le _
  clients := by simp [System.start, init]

variable {m : ServiceManager} {es : List Event} {cb service : Option IBinder} {k : ServiceName} {r : LazyRegistrar}
    {e e' : Registration} {env : Env} {allowIsolated : Bool} {dumpFlags : BitVec 32} {reply : Reply}

/-- A step of service manager that registers nothing for the registrar and sends it messages
about its registrations only. -/
theorem Agreed.manager (h : Agreed s) (hw : WellFormed m) (ht : Tracks (some s.self) m)
    (hreg : ∀ name, IsRegistered (some s.self) m name → IsRegistered (some s.self) s.manager name)
    (hsame : ∀ name entry r, m.mNameToService.find? name = some entry → IsRegistered (some s.self) m name →
      s.registrar.mRegisteredServices.find? name = some r → entry.binder = r.service)
    (hh : m.history = s.manager.history ++ es)
    (hes : ∀ msg ∈ sentTo s.self es,
      ∃ r, s.registrar.mRegisteredServices.find? msg.name = some r ∧ msg.service = r.service) :
    Agreed { s with manager := m } := by
  have hsent : sentTo s.self m.history = sentTo s.self s.manager.history ++ sentTo s.self es := by
    rw [hh, sentTo_append]
  have hle := h.handled_le
  constructor
  · exact hw
  · exact ht
  · exact fun name hn => h.recorded name (hreg name hn)
  · exact hsame
  · exact h.distinct
  · exact h.present
  · intro msg hmsg
    rw [hsent] at hmsg
    exact (mem_append.mp hmsg).elim (h.sent msg) (hes msg)
  · rw [hsent, length_append]
    exact Nat.le_add_right_of_le hle
  · intro name r hr
    rw [hsent, take_append_of_le_length hle]
    exact h.clients name r hr

theorem sentTo_eq_nil (hes : ∀ e ∈ es, e.IsOnClients = false) : sentTo self es = [] := by
  refine filterMap_eq_nil_iff.mpr ?_
  intro e he
  have hne := hes e he
  cases e with
  | onClients => simp [Event.IsOnClients] at hne
  | _ => rfl

theorem Agreed.shrinks (h : Agreed s) (hw : WellFormed m)
    (hs : Shrinks s.manager m) : Agreed { s with manager := m } := by
  obtain ⟨es, hh, hes⟩ := hs.history
  have hreg : ∀ name, IsRegistered (some s.self) m name → IsRegistered (some s.self) s.manager name := by
    rintro name ⟨c, hc, hcb⟩
    exact ⟨c, (hs.clients name).subset hc, hcb⟩
  refine h.manager hw (h.tracks.shrinks hs) hreg ?_ hh (by simp [sentTo_eq_nil hes])
  intro name entry r hentry hn hr
  obtain ⟨entry', hentry', heq⟩ := hs.services name entry hentry
  have hb : entry.binder = entry'.binder := congrArg Prod.fst heq
  rw [hb]
  exact h.same name entry' r hentry' (hreg name hn) hr

theorem Agreed.added {service : Service} (h : Agreed s)
    (hw : WellFormed ((s.manager.setService name service).log es))
    (hc : service.hasClients = false)
    (hcond : IsRegistered (some s.self) s.manager name → lastTold (some s.self) name s.manager.history = false ∧
      ∀ r ∈ s.registrar.mRegisteredServices.find? name, r.service = service.binder)
    (hes : ∀ e ∈ es, e.IsOnClients = false) :
    Agreed { s with manager := (s.manager.setService name service).log es } := by
  have ht := h.tracks.added hc (fun hn => (hcond hn).1) hes
  refine h.manager hw ht (fun _ hn => hn) ?_ rfl (by simp [sentTo_eq_nil hes])
  intro k entry r hentry hn hr
  rw [log_mNameToService, setService_mNameToService, OrdMap.find?_insert] at hentry
  split_ifs at hentry with hk
  · cases hentry
    subst hk
    exact ((hcond hn).2 r hr).symm
  · exact h.same k entry r hentry hn hr

theorem isRegistered_setClientCallbacks (h : IsRegistered (some self)
      (m.setClientCallbacks name (m.clientCallbacks name ++ [⟨cb, service⟩])) k) :
    IsRegistered (some self) m k ∨ (k = name ∧ cb = some self) := by
  obtain ⟨c, hc, hcb⟩ := h
  rw [clientCallbacks_setClientCallbacks] at hc
  split_ifs at hc with hk
  · subst hk
    rcases mem_append.mp hc with hc | hc
    · exact .inl ⟨c, hc, hcb⟩
    · rw [mem_singleton.mp hc] at hcb
      exact .inr ⟨rfl, hcb⟩
  · exact .inl ⟨c, hc, hcb⟩

theorem Agreed.attachedOther (h : Agreed s) (hw : WellFormed (s.manager.setClientCallbacks name
      (s.manager.clientCallbacks name ++ [⟨cb, service⟩]))) (hcb : cb ≠ some s.self) :
    Agreed { s with manager := (s.manager.setClientCallbacks name
      (s.manager.clientCallbacks name ++ [⟨cb, service⟩])) } := by
  have ht : Tracks (some s.self) (s.manager.setClientCallbacks name
      (s.manager.clientCallbacks name ++ [⟨cb, service⟩])) :=
    h.tracks.attached fun heq => absurd heq hcb
  have hreg : ∀ k, IsRegistered (some s.self) (s.manager.setClientCallbacks name
      (s.manager.clientCallbacks name ++ [⟨cb, service⟩])) k →
      IsRegistered (some s.self) s.manager k :=
    fun k hk => (isRegistered_setClientCallbacks hk).resolve_right fun hn => hcb hn.2
  refine h.manager hw ht hreg ?_ (append_nil _).symm (by simp [sentTo])
  intro k entry r hentry hk hr
  exact h.same k entry r hentry (hreg k hk) hr

theorem Agreed.settles (h : Agreed s) (hs : Settles s.manager name m) :
    Agreed { s with manager := m.log [.checked name] } := by
  have hw := h.wellFormed.settles hs
  have ht := h.tracks.settles hs
  cases hs with
  | skipped => exact h.shrinks hw (.log (by simp [Event.IsOnClients]))
  | settled service callbacks values hfind hc =>
    have hcbs := clientCallbacks_of_find? hc
    have hh : ((s.manager.settle name service callbacks values false).log [.checked name]).history =
        s.manager.history ++ (values.flatMap (notifications callbacks name service) ++ [.checked name]) := by
      rw [log_history, settle, setService_history, log_history, append_assoc]
    refine h.manager hw ht (fun _ hn => hn) ?_ hh ?_
    · intro k entry r hentry hn hr
      rw [log_mNameToService, settle, setService_mNameToService, OrdMap.find?_insert] at hentry
      split_ifs at hentry with hk
      · cases hentry
        subst hk
        exact h.same k service r hfind hn hr
      · exact h.same k entry r hentry hn hr
    · intro msg hmsg
      obtain ⟨cb, hcb, hmem⟩ := mem_sentTo hmsg
      rcases mem_append.mp hmem with hmem | hmem
      · obtain ⟨c, hmemc, v, -, heq⟩ := mem_settled hmem
        obtain ⟨rfl, hname, hservice, -⟩ := Event.onClients.inj heq
        have hn : IsRegistered (some s.self) s.manager name := ⟨cb, hcbs ▸ hmemc, hcb⟩
        obtain ⟨r, hr⟩ := h.recorded name hn
        rw [hname, hservice]
        exact ⟨r, hr, h.same name service r hfind hn hr⟩
      · simp at hmem

/-- Service manager acts for another process, or on a call of the registrar other than the
registration of its callback. -/
theorem Agreed.managerStep {a : ServiceManager.Action} (h : Agreed s) (hstep : s.manager.step a = some m)
    (hadd : ∀ env name binder allowIsolated dumpPriority,
      a = .call env (.addService name binder allowIsolated dumpPriority) →
      addServiceError env name binder = none → IsRegistered (some s.self) s.manager name →
      lastTold (some s.self) name s.manager.history = false ∧
      ∀ r ∈ s.registrar.mRegisteredServices.find? name, r.service = binder)
    (hattach : ∀ env name service, a ≠ .call env (.registerClientCallback name service (some s.self))) :
    Agreed { s with manager := m } := by
  have hw : WellFormed m := h.wellFormed.moves (step_moves hstep)
  cases (step_moves hstep).clientMoves with
  | shrunk _ _ hs => exact h.shrinks hw hs
  | added env name binder allowIsolated dumpPriority he =>
    refine h.added hw rfl (hadd env name binder allowIsolated dumpPriority rfl he) ?_
    intro e hmem
    obtain ⟨c, -, rfl⟩ := mem_map.mp hmem
    rfl
  | attached env name service =>
    exact h.attachedOther hw fun hcb => hattach env name service (hcb ▸ rfl)
  | checked _ _ hc =>
    exact hc.invariant (fun m => Agreed { s with manager := m }) h
      fun {t _ _} ht hs => @Agreed.settles { s with manager := t } _ _ ht hs

/-- The registrar keeps its services, and their `clients` flags follow the handled messages. -/
theorem Agreed.registrar {handled : ℕ} (h : Agreed s) (task : Task)
    (hr : ∀ name, (r.mRegisteredServices.find? name).map (·.service) =
      (s.registrar.mRegisteredServices.find? name).map (·.service))
    (hle : handled ≤ (sentTo s.self s.manager.history).length)
    (hc : ∀ name e, r.mRegisteredServices.find? name = some e →
      e.clients = (valuesFor name ((sentTo s.self s.manager.history).take handled)).getLastD false) :
    Agreed { s with registrar := r, task := task, handled := handled } := by
  have hfrom : ∀ name e, r.mRegisteredServices.find? name = some e →
      ∃ e', s.registrar.mRegisteredServices.find? name = some e' ∧ e'.service = e.service := by
    intro name e he
    have hmap := hr name
    rw [he, Option.map_some] at hmap
    exact Option.map_eq_some_iff.mp hmap.symm
  have hto : ∀ name e', s.registrar.mRegisteredServices.find? name = some e' →
      ∃ e, r.mRegisteredServices.find? name = some e ∧ e.service = e'.service := by
    intro name e' he'
    have hmap := hr name
    rw [he', Option.map_some] at hmap
    exact Option.map_eq_some_iff.mp hmap
  constructor
  · exact h.wellFormed
  · exact h.tracks
  · intro name hn
    obtain ⟨e', he'⟩ := h.recorded name hn
    obtain ⟨e, he, -⟩ := hto name e' he'
    exact ⟨e, he⟩
  · intro name entry e hentry hn he
    obtain ⟨e', he', hs⟩ := hfrom name e he
    rw [← hs]
    exact h.same name entry e' hentry hn he'
  · intro name name' e₁ e₂ he₁ he₂ heq
    obtain ⟨e₁', he₁', hs₁⟩ := hfrom name e₁ he₁
    obtain ⟨e₂', he₂', hs₂⟩ := hfrom name' e₂ he₂
    exact h.distinct name name' e₁' e₂' he₁' he₂' (by rw [hs₁, hs₂, heq])
  · intro name e he
    obtain ⟨e', he', hs⟩ := hfrom name e he
    rw [← hs]
    exact h.present name e' he'
  · intro m hm
    obtain ⟨e', he', hs'⟩ := h.sent m hm
    obtain ⟨e, he, hs⟩ := hto m.name e' he'
    exact ⟨e, he, by rw [hs', hs]⟩
  · exact hle
  · exact hc

theorem Agreed.withTask (h : Agreed s) (task : Task) : Agreed { s with task := task } :=
  h.registrar task (fun _ => rfl) h.handled_le h.clients

theorem setRegistration_service (he : r.mRegisteredServices.find? name = some e) (hs : e'.service = e.service)
    (k : ServiceName) :
    ((r.setRegistration name e').mRegisteredServices.find? k).map (·.service) =
      (r.mRegisteredServices.find? k).map (·.service) := by
  unfold setRegistration
  rw [OrdMap.find?_insert]
  split_ifs with hk
  · rw [hk, he, Option.map_some, Option.map_some, hs]
  · rfl

theorem setRegistration_cases (h : (r.setRegistration name e).mRegisteredServices.find? k = some e') :
    (k = name ∧ e' = e) ∨ (k ≠ name ∧ r.mRegisteredServices.find? k = some e') := by
  unfold setRegistration at h
  rw [OrdMap.find?_insert] at h
  split_ifs at h with hk
  · exact .inl ⟨hk, (Option.some.inj h).symm⟩
  · exact .inr ⟨hk, h⟩

theorem setRegistration_self (r : LazyRegistrar) (e : Registration) :
    (r.setRegistration name e).mRegisteredServices.find? name = some e := by
  simp [setRegistration]

theorem setRegistration_of_ne (hk : k ≠ name) :
    (r.setRegistration name e).mRegisteredServices.find? k = r.mRegisteredServices.find? k := by
  simp [setRegistration, hk]

/-- No message was sent for a name that is not registered. -/
theorem Agreed.valuesFor_eq_nil (h : Agreed s)
    (hnew : s.registrar.mRegisteredServices.find? name = none) {ms : List Message}
    (hms : ms ⊆ sentTo s.self s.manager.history) : valuesFor name ms = [] := by
  refine filterMap_eq_nil_iff.mpr ?_
  intro m hm
  refine if_neg ?_
  intro heq
  obtain ⟨r, hr, -⟩ := h.sent m (hms hm)
  rw [heq, hnew] at hr
  cases hr

/-- The callback of the registrar is registered for a new name. -/
theorem Agreed.attachedSelf (h : Agreed s)
    (he : s.manager.registerClientCallbackError env name e.service (some s.self) = none)
    (hnew : s.registrar.mRegisteredServices.find? name = none) (hc : e.clients = false)
    (hclients : ∀ entry ∈ s.manager.mNameToService.find? name, entry.hasClients = false)
    (hother : ∀ e' ∈ s.registrar.mRegisteredServices.entries, e'.2.service ≠ e.service) :
    Agreed { s with
      manager := (s.manager.setClientCallbacks name (s.manager.clientCallbacks name ++ [⟨some s.self, e.service⟩]))
      registrar := s.registrar.setRegistration name e
      task := .idle } := by
  obtain ⟨-, entry, hentry, -, hbinder⟩ := registerClientCallbackError_eq_none he
  have hnotreg : ¬ IsRegistered (some s.self) s.manager name := by
    intro hn
    obtain ⟨r, hr⟩ := h.recorded name hn
    simp [hnew] at hr
  have hlast : lastTold (some s.self) name s.manager.history = false := by
    rw [lastTold, told_eq_valuesFor, h.valuesFor_eq_nil hnew (List.Subset.refl _)]
    rfl
  have hkeep : ∀ k r, s.registrar.mRegisteredServices.find? k = some r →
      (s.registrar.setRegistration name e).mRegisteredServices.find? k = some r := by
    intro k r hr
    rw [setRegistration_of_ne, hr]
    rintro rfl
    simp [hnew] at hr
  have hold : ∀ k r, s.registrar.mRegisteredServices.find? k = some r → r.service ≠ e.service :=
    fun k r hr => hother (k, r) (OrdMap.find?_eq_some_iff.mp hr)
  constructor
  · exact ⟨h.wellFormed.services, h.wellFormed.registrations, h.wellFormed.clients.push (by simp)⟩
  · refine h.tracks.attached fun _ => ⟨hnotreg, ?_⟩
    intro entry' hentry'
    rw [hlast, hclients entry' hentry']
  · intro k hk
    rcases isRegistered_setClientCallbacks hk with hk | ⟨rfl, -⟩
    · obtain ⟨r, hr⟩ := h.recorded k hk
      exact ⟨r, hkeep k r hr⟩
    · exact ⟨e, setRegistration_self _ e⟩
  · intro k entry' r hentry' hk hr
    rcases setRegistration_cases hr with ⟨rfl, rfl⟩ | ⟨hne, hr⟩
    · cases hentry.symm.trans hentry'
      exact hbinder
    · have hk' := (isRegistered_setClientCallbacks hk).resolve_right fun heq => hne heq.1
      exact h.same k entry' r hentry' hk' hr
  · intro k k' r r' hr hr' heq
    rcases setRegistration_cases hr with ⟨hk, he⟩ | ⟨-, hr₁⟩ <;>
      rcases setRegistration_cases hr' with ⟨hk', he'⟩ | ⟨-, hr₂⟩
    · rw [hk, hk']
    · exact absurd (he ▸ heq.symm) (hold k' r' hr₂)
    · exact absurd (he' ▸ heq) (hold k r hr₁)
    · exact h.distinct k k' r r' hr₁ hr₂ heq
  · intro k r hr
    rcases setRegistration_cases hr with ⟨rfl, rfl⟩ | ⟨-, hr⟩
    · rw [← hbinder]
      exact (h.wellFormed.services k entry hentry).1
    · exact h.present k r hr
  · intro m hm
    obtain ⟨r, hr, hs⟩ := h.sent m hm
    exact ⟨r, hkeep m.name r hr, hs⟩
  · exact h.handled_le
  · intro k r hr
    rcases setRegistration_cases hr with ⟨rfl, rfl⟩ | ⟨-, hr⟩
    · rw [setClientCallbacks_history, h.valuesFor_eq_nil hnew (take_subset _ _), hc]
      rfl
    · exact h.clients k r hr

/-- The registration that a message finds is the one it was sent for, and it records another
value. -/
theorem Agreed.next {m : Message} (h : Agreed s) (hm : s.next? = some m) :
    ∃ r, s.registrar.mRegisteredServices.find? m.name = some r ∧
      s.registrar.assertRegisteredService m.service = some (m.name, r) ∧ r.clients ≠ m.clients := by
  obtain ⟨hlt, hget⟩ := List.getElem?_eq_some_iff.mp hm
  have hmem : m ∈ sentTo s.self s.manager.history := hget ▸ getElem_mem hlt
  obtain ⟨r, hr, hs⟩ := h.sent m hmem
  refine ⟨r, hr, ?_, ?_⟩
  · have hne : m.service ≠ none := hs ▸ h.present m.name r hr
    unfold assertRegisteredService
    rw [if_neg hne]
    cases hfind : s.registrar.mRegisteredServices.entries.find? fun e => e.2.service = m.service with
    | none =>
      have hnone := List.find?_eq_none.mp hfind (m.name, r) (OrdMap.find?_eq_some_iff.mp hr)
      simp [hs] at hnone
    | some e =>
      have hservice : e.2.service = m.service := by simpa using List.find?_some hfind
      have he := OrdMap.find?_eq_some_iff.mpr (mem_of_find?_eq_some hfind)
      have hname : e.1 = m.name := h.distinct e.1 m.name e.2 r he hr (by rw [hservice, hs])
      rw [hname, hr] at he
      rw [Option.some.inj he, ← hname]
  · -- the values of the name alternate; those handled so far end in the recorded one
    have hchain := h.tracks.chain m.name
    have hsplit : sentTo s.self s.manager.history = (sentTo s.self s.manager.history).take s.handled ++
          m :: (sentTo s.self s.manager.history).drop (s.handled + 1) := by
      rw [← hget, ← drop_eq_getElem_cons hlt, take_append_drop]
    rw [told_eq_valuesFor, hsplit, valuesFor_append, isChain_cons_append] at hchain
    have htail := hchain.2
    rw [valuesFor_cons, if_pos rfl] at htail
    rw [h.clients m.name r hr]
    exact (isChain_cons_cons.mp htail).1

/-- The `registered` flag of an entry is not read by messages. -/
theorem Agreed.setRegistered (h : Agreed s) (task : Task)
    (he : s.registrar.mRegisteredServices.find? name = some e) (registered : Bool) :
    Agreed { s with
      registrar := s.registrar.setRegistration name { e with registered := registered }
      task := task } := by
  refine h.registrar task (setRegistration_service he rfl) h.handled_le ?_
  intro k r hr
  rcases setRegistration_cases hr with ⟨rfl, rfl⟩ | ⟨-, hr⟩
  · exact h.clients k e he
  · exact h.clients k r hr

theorem Agreed.handle {m : Message} (h : Agreed s)
    (hm : s.next? = some m) (he : s.registrar.mRegisteredServices.find? m.name = some e)
    (hr : r.mRegisteredServices = (s.registrar.setRegistration m.name
      { e with clients := m.clients }).mRegisteredServices) (task : Task) :
    Agreed { s with registrar := r, task := task, handled := s.handled + 1 } := by
  obtain ⟨hlt, -⟩ := List.getElem?_eq_some_iff.mp hm
  have htake : (sentTo s.self s.manager.history).take (s.handled + 1) =
      (sentTo s.self s.manager.history).take s.handled ++ [m] := by
    unfold System.next? at hm
    rw [take_add_one, hm, Option.toList_some]
  refine h.registrar task (hr ▸ setRegistration_service he rfl) hlt ?_
  intro k r' hr'
  rw [htake, valuesFor_append, getLastD_append, valuesFor_cons]
  rw [hr] at hr'
  rcases setRegistration_cases hr' with ⟨rfl, rfl⟩ | ⟨hk, hr'⟩
  · rw [if_pos rfl]
    rfl
  · rw [if_neg (Ne.symm hk)]
    exact h.clients k r' hr'

/-- The task is between the two calls of `registerServiceLocked`. -/
def Task.linking : Task → Option ServiceName
  | .registerClientCallback _ name _ _ => some name
  | _ => none

theorem tryUnregisterFrom_linking (todo : List ServiceName) (caller : Caller) :
    (tryUnregisterFrom todo caller).linking = none := by
  unfold tryUnregisterFrom
  split <;> rfl

theorem reRegisterFrom_linking (r : LazyRegistrar) (todo : List ServiceName) (caller : Caller) :
    (r.reRegisterFrom todo caller).linking = none := by
  unfold reRegisterFrom
  split <;> rfl

theorem afterActiveServices_linking (r : LazyRegistrar) (handledInCallback : Bool) :
    (r.afterActiveServices handledInCallback).linking = none := by
  unfold afterActiveServices
  split
  · exact tryUnregisterFrom_linking _ _
  · rfl

theorem maybeTryShutdownLocked_linking (r : LazyRegistrar) : r.maybeTryShutdownLocked.linking = none := by
  unfold maybeTryShutdownLocked
  dsimp only
  split
  · rfl
  · split
    · rfl
    · exact afterActiveServices_linking r false

structure Composed (s : System) : Prop where
  agreed : Agreed s
  linking : ∀ name, s.task.linking = some name → s.registrar.mRegisteredServices.find? name = none

theorem Composed.of_agreed (h : Agreed s) (ht : s.task.linking = none) : Composed s :=
  ⟨h, fun name hn => by simp [ht] at hn⟩

theorem registerClientCallbackError_ne_ok : m.registerClientCallbackError env name service cb ≠ some .ok := by
  unfold registerClientCallbackError
  by_cases hcb : cb = none
  · simp [hcb, Reply.ok]
  rw [if_neg hcb]
  by_cases hadd : (!env.canAdd name) = true
  · simp [hadd, Reply.ok]
  rw [if_neg hadd]
  cases m.mNameToService.find? name with
  | none => simp [Reply.ok]
  | some =>
    dsimp only
    split_ifs <;> simp [Reply.ok]

/-- `addService` of the registrar, for a new registration or an old one. -/
theorem Agreed.requestAdd (h : Agreed s) (ha : Orderly s (.request env)) (hreq : s.registrar.request s.self s.task =
      some (.addService name service allowIsolated dumpFlags))
    (ht : s.manager.transact env (.addService name service allowIsolated dumpFlags) =
      some (reply, m)) : Agreed { s with manager := m } := by
  unfold Orderly at ha
  simp only [System.managerAction, hreq, Option.map_some] at ha
  have hstep : s.manager.step (.call env (.addService name service allowIsolated dumpFlags)) = some m := by
    rw [ServiceManager.step, ht, Option.map_some]
  refine h.managerStep hstep ?_ (fun _ _ _ heq => by cases heq)
  rintro env' name' binder' allow' dump' heq
  cases heq
  exact ha

theorem Agreed.requestUnregister {binder : Option IBinder} (h : Agreed s)
    (ht : s.manager.transact env (.tryUnregisterService name binder) = some (reply, m)) :
    Agreed { s with manager := m } := by
  have hstep : s.manager.step (.call env (.tryUnregisterService name binder)) = some m := by
    rw [ServiceManager.step, ht, Option.map_some]
  exact h.managerStep hstep (fun _ _ _ _ _ heq => by cases heq) (fun _ _ _ heq => by cases heq)

theorem Composed.requestAttach (h : Composed s) (ha : Orderly s (.request env))
    (htask : s.task = .registerClientCallback service name allowIsolated dumpFlags)
    (ht : s.manager.registerClientCallback env name service (some s.self) = (reply, m)) :
    Composed { s with
      manager := m
      registrar := (s.registrar.resume (decide (reply = .ok)) s.task).1
      task := (s.registrar.resume (decide (reply = .ok)) s.task).2 } := by
  unfold Orderly at ha
  simp only [System.managerAction, htask, request, Option.map_some] at ha
  unfold registerClientCallback at ht
  cases he : s.manager.registerClientCallbackError env name service (some s.self) with
  | some =>
    rw [he] at ht
    cases ht
    have hne : reply ≠ .ok := fun hok => registerClientCallbackError_ne_ok (hok ▸ he)
    simp only [htask, resume, hne, decide_false, Bool.not_false, if_true]
    exact .of_agreed (h.agreed.withTask .idle) rfl
  | none =>
    rw [he] at ht
    cases ht
    obtain ⟨hclients, hother⟩ := ha he trivial
    have hnew : s.registrar.mRegisteredServices.find? name = none :=
      h.linking name (by rw [htask]; rfl)
    simp only [htask, resume, decide_true, Bool.not_true, Bool.false_eq_true, if_false]
    exact .of_agreed (h.agreed.attachedSelf (e := { service, allowIsolated, dumpFlags }) he hnew rfl
      hclients hother) rfl

theorem Composed.request (h : Composed s) (ha : Orderly s (.request env))
    (hstep : s.performRequest env = some s') : Composed s' := by
  obtain ⟨c, hc, hrest⟩ := Option.bind_eq_some_iff.mp hstep
  obtain ⟨⟨reply, m⟩, ht, heq⟩ := Option.bind_eq_some_iff.mp hrest
  rw [← Option.some.inj heq]
  cases htask : s.task with
  | addService =>
    rw [htask] at hc
    cases hc
    have hagreed := h.agreed.requestAdd ha (by rw [htask]; rfl) ht
    generalize hres : s.registrar.resume _ _ = res
    simp only [resume] at hres
    split_ifs at hres with hok hsome <;> subst hres
    · exact .of_agreed (hagreed.withTask .idle) rfl
    · exact .of_agreed (hagreed.withTask .idle) rfl
    · refine ⟨hagreed.withTask _, ?_⟩
      intro k hk
      cases hk
      simpa using hsome
  | registerClientCallback =>
    rw [htask] at hc
    cases hc
    have hattach := h.requestAttach ha htask (Option.some.inj ht)
    rwa [htask] at hattach
  | tryUnregister todo caller =>
    cases todo with
    | nil =>
      rw [htask] at hc
      cases hc
    | cons =>
      rw [htask] at hc
      obtain ⟨e, he, rfl⟩ := Option.map_eq_some_iff.mp hc
      have hagreed := h.agreed.requestUnregister ht
      generalize hres : s.registrar.resume _ _ = res
      simp only [resume, he] at hres
      split_ifs at hres with hok <;> subst hres
      · refine .of_agreed (hagreed.withTask _) ?_
        cases caller with
        | shutdown => exact reRegisterFrom_linking _ _ _
        | callback => rfl
      · exact .of_agreed (hagreed.setRegistered _ he false) (tryUnregisterFrom_linking _ _)
  | reRegister todo =>
    cases todo with
    | nil =>
      rw [htask] at hc
      cases hc
    | cons =>
      rw [htask] at hc
      have hreq := hc
      obtain ⟨e, he, rfl⟩ := Option.map_eq_some_iff.mp hc
      have hagreed := h.agreed.requestAdd ha (by rw [htask]; exact hreq) ht
      generalize hres : s.registrar.resume _ _ = res
      simp only [resume, he] at hres
      split_ifs at hres with hok <;> subst hres
      · exact .of_agreed (hagreed.withTask .aborted) rfl
      · exact .of_agreed (hagreed.setRegistered _ he true) (reRegisterFrom_linking _ _ _)
  | idle | activeServices | exited | aborted =>
    rw [htask] at hc
    cases hc

theorem onClients_of_assert {clients : Bool} (h : r.assertRegisteredService service = some (name, e))
    (hne : e.clients ≠ clients) :
    ∃ r' task, r.onClients service clients = some (r', task) ∧ r'.mRegisteredServices =
        (r.setRegistration name { e with clients := clients }).mRegisteredServices ∧
      task.linking = none := by
  unfold onClients
  simp only [h, if_neg hne]
  exact ⟨_, _, rfl, rfl, maybeTryShutdownLocked_linking _⟩

/-- A message is handled, and only its own registration changes. -/
theorem Agreed.handleMessage {m : Message} (h : Agreed s) (hm : s.next? = some m) :
    ∃ r t, s.registrar.mRegisteredServices.find? m.name = some r ∧ s.handleMessage = some t ∧
      t.registrar.mRegisteredServices =
        s.registrar.mRegisteredServices.insert m.name { r with clients := m.clients } ∧
      Composed t := by
  obtain ⟨e, he, hassert, hne⟩ := h.next hm
  obtain ⟨r, task, hr, hrecord, hlinking⟩ := onClients_of_assert hassert hne
  refine ⟨e, { s with registrar := r, task := task, handled := s.handled + 1 }, he, ?_, hrecord,
    .of_agreed (h.handle hm he hrecord task) hlinking⟩
  simp [System.handleMessage, hm, hr]

theorem Composed.step {a : Action} (h : Composed s) (ha : Orderly s a)
    (hstep : s.step a = some s') : Composed s' := by
  cases a with
  | other =>
    simp only [System.step] at hstep
    split_ifs at hstep with hother
    obtain ⟨m, hm, rfl⟩ := Option.map_eq_some_iff.mp hstep
    refine ⟨h.agreed.managerStep hm ?_ ?_, h.linking⟩
    · rintro env name binder allowIsolated dumpPriority rfl
      exact ha
    · rintro env name service rfl
      exact hother.2 rfl
  | registerService =>
    simp only [System.step] at hstep
    split_ifs at hstep with hidle
    cases hstep
    exact .of_agreed (h.agreed.withTask _) rfl
  | forcePersist persist =>
    have hflag : ∀ task, Agreed { s with
        registrar := { s.registrar with mForcePersist := persist }
        task := task } :=
      fun task => h.agreed.registrar task (fun _ => rfl) h.agreed.handled_le h.agreed.clients
    simp only [System.step] at hstep
    split_ifs at hstep with hidle hpersist
    · cases hstep
      exact .of_agreed (hflag _) rfl
    · cases hstep
      exact .of_agreed (hflag _) (maybeTryShutdownLocked_linking _)
  | setActiveServicesCallback =>
    simp only [System.step] at hstep
    split_ifs at hstep with hidle
    cases hstep
    exact .of_agreed (h.agreed.registrar _ (fun _ => rfl) h.agreed.handled_le h.agreed.clients)
      (by rw [hidle]; rfl)
  | request =>
    simp only [System.step] at hstep
    split_ifs at hstep with hpid
    exact h.request ha hstep
  | onClients =>
    simp only [System.step] at hstep
    split_ifs at hstep with hidle
    obtain ⟨m, hm, -⟩ := Option.bind_eq_some_iff.mp hstep
    obtain ⟨r, t, -, ht, -, hcomposed⟩ := h.agreed.handleMessage hm
    cases ht.symm.trans hstep
    exact hcomposed
  | callbackTryUnregister =>
    simp only [System.step] at hstep
    split at hstep
    · cases hstep
      exact .of_agreed (h.agreed.withTask _) (tryUnregisterFrom_linking _ _)
    · cases hstep
  | callbackReRegister =>
    simp only [System.step] at hstep
    split at hstep
    · cases hstep
      exact .of_agreed (h.agreed.withTask _) (reRegisterFrom_linking _ _ _)
    · cases hstep
  | callbackReturns =>
    simp only [System.step] at hstep
    split at hstep
    · cases hstep
      exact .of_agreed (h.agreed.registrar _ (fun _ => rfl) h.agreed.handled_le h.agreed.clients)
        (afterActiveServices_linking _ _)
    · cases hstep

/-- Under the condition every message to the registrar passes the fatal checks and updates the
record of the registration for which it was sent. -/
theorem onClients_handled {pid : ℤ} (h : Reachable System.step Orderly (.start self pid) s)
    (hidle : s.task = .idle) {m : Message} (hm : s.next? = some m) :
    ∃ r t, s.registrar.mRegisteredServices.find? m.name = some r ∧ s.step .onClients = some t ∧
      t.registrar.mRegisteredServices =
        s.registrar.mRegisteredServices.insert m.name { r with clients := m.clients } := by
  have hstart : Composed (.start self pid) := .of_agreed (.start self pid) rfl
  have hcomposed := h.invariant Composed hstart fun _ _ _ hs ha hstep => hs.step ha hstep
  obtain ⟨r, t, hr, ht, hrecord, -⟩ := hcomposed.agreed.handleMessage hm
  exact ⟨r, t, hr, by rw [System.step, if_pos hidle, ht], hrecord⟩

/-- A service of the registrar has got a client and the message is on its way. -/
theorem onClients_handled_example : ∃ s m, Reachable System.step Orderly (.start 9 7) s ∧
    s.task = .idle ∧ s.next? = some m ∧ ∃ r t,
      s.registrar.mRegisteredServices.find? m.name = some r ∧ s.step .onClients = some t ∧
      t.registrar.mRegisteredServices =
        s.registrar.mRegisteredServices.insert m.name { r with clients := m.clients } := by
  obtain ⟨s, hs, hidle, hm⟩ := exists_reachable System.step Orderly (.start 9 7)
    [.registerService (some 1) [97] false 0, .request (.granting 7 1000 1),
      .request (.granting 7 1000 1), .other (.handleClientCallbacks fun _ => 5)]
    (fun s => s.task = .idle ∧ s.next? = some ⟨[97], some 1, true⟩) (by decide)
  exact ⟨s, _, hs, hidle, hm, onClients_handled hs hidle hm⟩

/-- A message is on its way during a shutdown that fails: the service is added again, its entry
starts without clients, and `true` is sent twice. -/
theorem onClients_fatal : ∃ s m, Reachable System.step Free (.start 9 7) s ∧ s.task = .idle ∧
    s.next? = some m ∧ s.registrar.onClients m.service m.clients = none := by
  obtain ⟨s, hs, hidle, m, hm, hfatal⟩ := exists_reachable System.step Free (.start 9 7)
    [.registerService (some 1) [97] false 0, .request (.granting 7 1000 1),
      .request (.granting 7 1000 1), .registerService (some 2) [98] false 0,
      .request (.granting 7 1000 1), .request (.granting 7 1000 1),
      .other (.handleClientCallbacks fun name => if name = [97] then 5 else 1),
      -- the shutdown unregisters the first service, not the second, and adds the first again
      .forcePersist false, .request (.granting 7 1000 1), .request (.granting 7 1000 5),
      .request (.granting 7 1000 1), .onClients,
      .other (.handleClientCallbacks fun name => if name = [97] then 5 else 1)]
    (fun s => s.task = .idle ∧ ∃ m ∈ s.next?, s.registrar.onClients m.service m.clients = none) (by decide)
  exact ⟨s, m, hs, hidle, hm, hfatal⟩

end Binder.LazyRegistrar
