import Binder.ProcessState.Handles

/-! There is one proxy for a handle, however its end and a new reference to the handle meet. -/
namespace Binder.ProcessState
open Lib List Function

variable {s s' : ProcessState} {i j h : ℕ} {b : BpBinder} {l : Option Section} {e : Event}

/-! ### Entries -/

theorem lookupHandleLocked_some {grow : Bool} (hs : s.lookupHandleLocked h grow = some s') :
    ∃ table, s' = { s with mHandleToObject := table } ∧ h < table.length ∧ ∀ k, s'.entry k = s.entry k := by
  unfold lookupHandleLocked at hs
  dsimp only at hs
  split_ifs at hs with hlen hgrow
  · cases hs
    refine ⟨_, rfl, ?_, fun k => ?_⟩
    · rw [length_append, length_replicate]
      omega
    · unfold entry
      rw [getD_eq_getElem?_getD, getD_eq_getElem?_getD, List.getElem?_append]
      split_ifs with hk
      · rfl
      · rw [List.getElem?_eq_none (Nat.le_of_not_lt hk), List.getElem?_replicate]
        split_ifs <;> rfl
  · cases hs
    exact ⟨_, rfl, Nat.lt_of_not_le hlen, fun _ => rfl⟩

theorem entry_of_lookup_none {grow : Bool} (hs : s.lookupHandleLocked h grow = none) : s.entry h = {} := by
  unfold lookupHandleLocked at hs
  dsimp only at hs
  split_ifs at hs with hlen
  unfold entry
  rw [getD_eq_getElem?_getD, List.getElem?_eq_none hlen]
  rfl

theorem entry_setEntry {e : HandleEntry} (hlen : h < s.mHandleToObject.length) (k : ℕ) :
    (s.setEntry h e).entry k = if k = h then e else s.entry k := by
  unfold entry setEntry
  rw [getD_eq_getElem?_getD, getD_eq_getElem?_getD, List.getElem?_set]
  by_cases hk : k = h
  · subst hk
    rw [if_pos rfl, if_pos hlen, if_pos rfl]
    rfl
  · rw [if_neg (Ne.symm hk), if_neg hk]

/-! ### The invariant -/

/-- The weak references to a proxy that the thread in the locked section holds. -/
def Section.holds (i : ℕ) : Section → ℕ
  | .forcing _ j => if j = i then 1 else 0
  | .forced _ j => if j = i then 2 else 0
  | .found _ | .creating _ => 0

def extra (l : Option Section) (i : ℕ) : ℕ := l.elim 0 (Section.holds i)

/-- What the thread in the locked section relies on. -/
def Section.Valid (s : ProcessState) : Section → Prop
  | .found h => h < s.mHandleToObject.length
  | .creating h => h < s.mHandleToObject.length ∧ ∀ i < s.next, (s.proxy i).handle = h → (s.proxy i).phase ≠ .alive
  | .forcing h i | .forced h i => (s.entry h).binder = some i

def Event.Good : Event → Prop
  | .deref ptr finished => ptr ≠ none ∧ finished = false
  | .given _ zeroed => zeroed = false
  | .expunged i cleared => cleared = none ∨ cleared = some i

structure Counted (s : ProcessState) : Prop where
  weak : ∀ i < s.next, (s.proxy i).weak = (s.proxy i).held + extra s.mLock i
  alive : ∀ i < s.next, (s.proxy i).phase = .alive ↔ (s.proxy i).weak ≠ 0
  addresses : ∀ i < s.next, ∀ j < s.next, (s.proxy i).phase ≠ .finished → (s.proxy j).phase ≠ .finished →
    (s.proxy i).address = (s.proxy j).address → i = j

/-- The table: an entry points to a proxy of its handle that was not expunged, and to the one that is alive if
there is one. -/
structure Tabled (s : ProcessState) : Prop where
  entries : ∀ h i, (s.entry h).binder = some i → (s.entry h).refs = some i ∧ i < s.next ∧ (s.proxy i).handle = h ∧
    ((s.proxy i).phase = .alive ∨ (s.proxy i).phase = .destructing)
  current : ∀ i < s.next, (s.proxy i).phase = .alive → (s.entry (s.proxy i).handle).binder = some i

structure Inv (s : ProcessState) : Prop where
  counted : s.Counted
  tabled : s.Tabled
  valid : ∀ c ∈ s.mLock, c.Valid s
  good : ∀ e ∈ s.history, e.Good

theorem Inv.init : Inv {} := by
  refine ⟨⟨?_, ?_, ?_⟩, ⟨?_, ?_⟩, ?_, ?_⟩
  · exact fun i hi => absurd hi (Nat.not_lt_zero i)
  · exact fun i hi => absurd hi (Nat.not_lt_zero i)
  · exact fun i hi => absurd hi (Nat.not_lt_zero i)
  · intro h i hi
    simp [entry] at hi
  · exact fun i hi => absurd hi (Nat.not_lt_zero i)
  · intro c hc
    cases hc
  · intro e he
    cases he

theorem Inv.log (hs : s.Inv) (he : e.Good) : (s.log e).Inv := by
  refine ⟨⟨hs.counted.weak, hs.counted.alive, hs.counted.addresses⟩, ⟨hs.tabled.entries, hs.tabled.current⟩, ?_, ?_⟩
  · intro c hc
    have hvalid := hs.valid c hc
    cases c <;> exact hvalid
  · intro e' he'
    rcases mem_cons.mp he' with rfl | he'
    · exact he
    · exact hs.good e' he'

theorem Inv.follow (hs : s.Inv) (hi : (s.entry h).binder = some i) : (s.follow (some i)).Inv := by
  apply hs.log
  have hphase := (hs.tabled.entries h i hi).2.2.2
  refine ⟨nofun, ?_⟩
  rcases hphase with hphase | hphase <;> simp [hphase]

/-- One proxy goes on in its life, and the lock may change. -/
theorem Inv.setProxy (hs : s.Inv) (hhandle : b.handle = (s.proxy i).handle)
    (haddress : b.address = (s.proxy i).address) (hweak : b.weak = b.held + extra l i)
    (hextra : ∀ j, j ≠ i → extra l j = extra s.mLock j) (halive : b.phase = .alive ↔ b.weak ≠ 0)
    (hlater : b.phase = .alive → (s.proxy i).phase = .alive)
    (hleft : (s.proxy i).phase = .finished → b.phase = .finished)
    (hentry : (s.entry b.handle).binder = some i → b.phase = .alive ∨ b.phase = .destructing)
    (hvalid : ∀ c ∈ l, c.Valid s) : ((s.setProxy i b).lock l).Inv := by
  have hother (j : ℕ) (hj : j ≠ i) : (update s.proxy i b) j = s.proxy j := update_of_ne hj ..
  have hself : (update s.proxy i b) i = b := update_self ..
  have haddr (j : ℕ) : ((update s.proxy i b) j).address = (s.proxy j).address := by
    by_cases hj : j = i
    · rw [hj, hself, haddress]
    · rw [hother j hj]
  have hhand (j : ℕ) : ((update s.proxy i b) j).handle = (s.proxy j).handle := by
    by_cases hj : j = i
    · rw [hj, hself, hhandle]
    · rw [hother j hj]
  have hwas (j : ℕ) (hj : ((update s.proxy i b) j).phase = .alive) : (s.proxy j).phase = .alive := by
    by_cases hji : j = i
    · rw [hji, hself] at hj
      rw [hji]
      exact hlater hj
    · rwa [hother j hji] at hj
  have hstays (j : ℕ) (hj : ((update s.proxy i b) j).phase ≠ .finished) : (s.proxy j).phase ≠ .finished := by
    by_cases hji : j = i
    · rw [hji, hself] at hj
      rw [hji]
      exact fun heq => hj (hleft heq)
    · rwa [hother j hji] at hj
  refine ⟨⟨?_, ?_, ?_⟩, ⟨?_, ?_⟩, ?_, hs.good⟩
  · intro j hj
    change ((update s.proxy i b) j).weak = ((update s.proxy i b) j).held + extra l j
    by_cases hji : j = i
    · rw [hji, hself]
      exact hweak
    · rw [hother j hji, hextra j hji]
      exact hs.counted.weak j hj
  · intro j hj
    change ((update s.proxy i b) j).phase = .alive ↔ ((update s.proxy i b) j).weak ≠ 0
    by_cases hji : j = i
    · rw [hji, hself]
      exact halive
    · rw [hother j hji]
      exact hs.counted.alive j hj
  · intro j hj k hk hjf hkf heq
    refine hs.counted.addresses j hj k hk (hstays j hjf) (hstays k hkf) ?_
    rw [← haddr j, ← haddr k]
    exact heq
  · intro k j hkj
    obtain ⟨hrefs, hlt, hhandle', hphase⟩ := hs.tabled.entries k j hkj
    refine ⟨hrefs, hlt, (hhand j).trans hhandle', ?_⟩
    change ((update s.proxy i b) j).phase = .alive ∨ ((update s.proxy i b) j).phase = .destructing
    by_cases hji : j = i
    · rw [hji, hself]
      apply hentry
      rw [hhandle, ← hji, hhandle']
      exact hkj
    · rw [hother j hji]
      exact hphase
  · intro j hj hja
    change (s.entry ((update s.proxy i b) j).handle).binder = some j
    rw [hhand j]
    exact hs.tabled.current j hj (hwas j hja)
  · intro c hc
    have hold := hvalid c hc
    cases c with
    | creating =>
      refine ⟨hold.1, fun j hj hk halive' => hold.2 j hj ?_ (hwas j halive')⟩
      rw [← hhand j]
      exact hk
    | found | forcing | forced => exact hold

/-! ### Steps -/

section

variable (hs : s.Inv)
include hs

theorem Inv.table {table : List HandleEntry} (hlock : s.mLock = none)
    (hentry : ∀ k, entry { s with mHandleToObject := table } k = s.entry k) :
    Inv { s with mHandleToObject := table } := by
  refine ⟨⟨hs.counted.weak, hs.counted.alive, hs.counted.addresses⟩, ⟨?_, ?_⟩, ?_, hs.good⟩
  · intro k j hkj
    rw [hentry] at hkj ⊢
    exact hs.tabled.entries k j hkj
  · intro j hj halive
    rw [hentry]
    exact hs.tabled.current j hj halive
  · intro c hc
    rw [hlock] at hc
    cases hc

theorem Inv.lock_found (hlock : s.mLock = none) (hlen : h < s.mHandleToObject.length) :
    (s.lock (some (.found h))).Inv := by
  refine ⟨⟨?_, hs.counted.alive, hs.counted.addresses⟩, ⟨hs.tabled.entries, hs.tabled.current⟩, ?_, hs.good⟩
  · intro j hj
    have hweak := hs.counted.weak j hj
    rw [hlock] at hweak
    exact hweak
  · intro c hc
    cases hc
    exact hlen

/-- The proxy of the entry is gone, or there is none: no proxy of the handle is alive. -/
theorem Inv.lock_creating (hlock : s.mLock = some (.found h))
    (hdead : ∀ i, (s.entry h).binder = some i → (s.proxy i).weak = 0) : (s.lock (some (.creating h))).Inv := by
  have hlen : h < s.mHandleToObject.length := hs.valid _ hlock
  refine ⟨⟨?_, hs.counted.alive, hs.counted.addresses⟩, ⟨hs.tabled.entries, hs.tabled.current⟩, ?_, hs.good⟩
  · intro j hj
    have hweak := hs.counted.weak j hj
    rw [hlock] at hweak
    exact hweak
  · intro c hc
    cases hc
    refine ⟨hlen, fun j hj (hh : (s.proxy j).handle = h) halive => ?_⟩
    have hcurrent := hs.tabled.current j hj halive
    rw [hh] at hcurrent
    exact (hs.counted.alive j hj).mp halive (hdead j hcurrent)

theorem Inv.attempt (hlock : s.mLock = some (.found h)) : (s.attempt h).Inv := by
  unfold ProcessState.attempt
  cases hb : (s.entry h).binder with
  | none => exact hs.lock_creating hlock (by simp [hb])
  | some i =>
    obtain ⟨hrefs, hi, -, -⟩ := hs.tabled.entries h i hb
    have hfollow := hs.follow hb
    rw [hrefs]
    dsimp only
    split_ifs with hzero
    · refine hfollow.lock_creating hlock fun j hj => ?_
      have hij : some i = some j := hb.symm.trans hj
      rw [← Option.some.inj hij]
      exact hzero
    · refine hfollow.setProxy rfl rfl ?_ ?_ ?_ id id ?_ ?_
      · have hweak := hs.counted.weak i hi
        rw [hlock] at hweak
        simp only [extra, Option.elim_some, Section.holds, if_true]
        change (s.proxy i).weak + 1 = (s.proxy i).held + 1
        rw [hweak]
        rfl
      · intro j hj
        change extra (some (.forcing h i)) j = extra s.mLock j
        rw [hlock]
        exact if_neg (Ne.symm hj)
      · refine iff_of_true ?_ (Nat.succ_ne_zero _)
        exact (hs.counted.alive i hi).mpr hzero
      · intro _
        exact (hs.tabled.entries h i hb).2.2.2
      · intro c hc
        cases hc
        exact hb

theorem Inv.force (hlock : s.mLock = some (.forcing h i)) : (s.force h i).Inv := by
  have hb : (s.entry h).binder = some i := hs.valid _ hlock
  obtain ⟨-, hi, -, hphase⟩ := hs.tabled.entries h i hb
  have hweak := hs.counted.weak i hi
  rw [hlock] at hweak
  simp only [extra, Option.elim_some, Section.holds, if_true] at hweak
  refine (hs.follow hb).setProxy rfl rfl ?_ ?_ ?_ id id (fun _ => hphase) ?_
  · simp only [extra, Option.elim_some, Section.holds, if_true]
    change (s.proxy i).weak + 1 = (s.proxy i).held + 2
    omega
  · intro j hj
    change extra (some (.forced h i)) j = extra s.mLock j
    rw [hlock]
    exact (if_neg (Ne.symm hj)).trans (if_neg (Ne.symm hj)).symm
  · refine iff_of_true ?_ (Nat.succ_ne_zero _)
    exact (hs.counted.alive i hi).mpr (by omega)
  · intro c hc
    cases hc
    exact hb

/-- The reference in `result` keeps the proxy alive when the other one is dropped. -/
theorem Inv.give (hlock : s.mLock = some (.forced h i)) : (s.give h i).Inv := by
  have hb : (s.entry h).binder = some i := hs.valid _ hlock
  obtain ⟨hrefs, hi, -, hphase⟩ := hs.tabled.entries h i hb
  have hweak := hs.counted.weak i hi
  rw [hlock] at hweak
  simp only [extra, Option.elim_some, Section.holds, if_true] at hweak
  have halive : (s.proxy i).phase = .alive := (hs.counted.alive i hi).mpr (by omega)
  have hdec : decWeak (s.proxy i) = { s.proxy i with weak := (s.proxy i).weak - 1 } := by
    unfold decWeak
    rw [if_neg (by omega)]
  have heq : s.give h i = (((s.follow (some i)).setProxy i { s.proxy i with
      weak := (s.proxy i).weak - 1, held := (s.proxy i).held + 1 }).lock none).log (.given i false) := by
    unfold ProcessState.give
    rw [hrefs]
    simp [ProcessState.follow, ProcessState.log, ProcessState.setProxy, lock, hdec, halive]
  rw [heq]
  refine Inv.log ?_ rfl
  refine (hs.follow hb).setProxy rfl rfl ?_ ?_ ?_ (fun _ => halive) id (fun _ => .inl halive) ?_
  · change (s.proxy i).weak - 1 = (s.proxy i).held + 1 + 0
    omega
  · intro j hj
    change 0 = extra s.mLock j
    rw [hlock]
    exact (if_neg (Ne.symm hj)).symm
  · refine iff_of_true halive ?_
    change (s.proxy i).weak - 1 ≠ 0
    omega
  · intro c hc
    cases hc

theorem Inv.incWeak (hi : i < s.next) (hheld : (s.proxy i).held ≠ 0) :
    (s.setProxy i { incWeak (s.proxy i) with held := (s.proxy i).held + 1 }).Inv := by
  have hweak := hs.counted.weak i hi
  have halive : (s.proxy i).phase = .alive := (hs.counted.alive i hi).mpr (by omega)
  have hset := hs.setProxy (i := i) (b := { ProcessState.incWeak (s.proxy i) with held := (s.proxy i).held + 1 })
    (l := s.mLock) rfl rfl
  refine hset ?_ (fun _ _ => rfl) (iff_of_true halive (Nat.succ_ne_zero _)) id id (fun _ => .inl halive) hs.valid
  change (s.proxy i).weak + 1 = (s.proxy i).held + 1 + extra s.mLock i
  omega

theorem Inv.decWeak (hi : i < s.next) (hheld : (s.proxy i).held ≠ 0) :
    (s.setProxy i (decWeak { s.proxy i with held := (s.proxy i).held - 1 })).Inv := by
  have hweak := hs.counted.weak i hi
  have halive : (s.proxy i).phase = .alive := (hs.counted.alive i hi).mpr (by omega)
  unfold ProcessState.decWeak
  by_cases hone : (s.proxy i).weak = 1
  · rw [if_pos hone]
    refine hs.setProxy (l := s.mLock) rfl rfl ?_ (fun _ _ => rfl) (by simp) (by simp) (by simp [halive])
      (fun _ => .inr rfl) hs.valid
    change 0 = (s.proxy i).held - 1 + extra s.mLock i
    omega
  · rw [if_neg hone]
    refine hs.setProxy (l := s.mLock) rfl rfl ?_ (fun _ _ => rfl) (iff_of_true halive ?_) id id
      (fun _ => .inl halive) hs.valid
    · change (s.proxy i).weak - 1 = (s.proxy i).held - 1 + extra s.mLock i
      omega
    · change (s.proxy i).weak - 1 ≠ 0
      omega

theorem Inv.unlock (hextra : ∀ j, extra s.mLock j = 0) : (s.lock none).Inv := by
  refine ⟨⟨?_, hs.counted.alive, hs.counted.addresses⟩, ⟨hs.tabled.entries, hs.tabled.current⟩, nofun, hs.good⟩
  intro j hj
  have hweak := hs.counted.weak j hj
  rw [hextra] at hweak
  exact hweak

/-- An entry is cleared when its proxy is not alive. -/
theorem Inv.clear {e : HandleEntry} (hlock : s.mLock = none) (hlen : h < s.mHandleToObject.length)
    (he : e.binder = none) (hdead : ∀ i < s.next, (s.proxy i).handle = h → (s.proxy i).phase ≠ .alive) :
    (s.setEntry h e).Inv := by
  refine ⟨⟨hs.counted.weak, hs.counted.alive, hs.counted.addresses⟩, ⟨?_, ?_⟩, ?_, hs.good⟩
  · intro k j hkj
    rw [entry_setEntry hlen] at hkj ⊢
    split_ifs at hkj ⊢ with hk
    · simp [he] at hkj
    · exact hs.tabled.entries k j hkj
  · intro j hj halive
    rw [entry_setEntry hlen, if_neg]
    · exact hs.tabled.current j hj halive
    · exact fun hh => hdead j hj hh halive
  · intro c hc
    change c ∈ s.mLock at hc
    rw [hlock] at hc
    cases hc

end

section Make

variable {address : ℕ}

def withNew (s : ProcessState) (b : BpBinder) : ℕ → BpBinder := update s.proxy s.next b

theorem withNew_old (hj : j < s.next) : s.withNew b j = s.proxy j := update_of_ne (Nat.ne_of_lt hj) ..

theorem withNew_new : s.withNew b s.next = b := update_self ..

theorem Counted.make (hs : s.Counted) (hextra : ∀ j, extra s.mLock j = 0) (hvacant : s.Vacant address)
    (hs' : s'.proxy = s.withNew { handle := h, address }) (hnext : s'.next = s.next + 1) (hlock : s'.mLock = none) :
    s'.Counted := by
  have hcases (j : ℕ) (hj : j < s'.next) : j < s.next ∨ j = s.next := by
    rw [hnext] at hj
    exact Nat.lt_succ_iff_lt_or_eq.mp hj
  refine ⟨fun j hj => ?_, fun j hj => ?_, fun j hj k hk hjf hkf => ?_⟩
  · rw [hs', hlock]
    rcases hcases j hj with hj | rfl
    · have hweak := hs.weak j hj
      rw [hextra] at hweak
      rw [withNew_old hj]
      exact hweak
    · rw [withNew_new]
      rfl
  · rw [hs']
    rcases hcases j hj with hj | rfl
    · rw [withNew_old hj]
      exact hs.alive j hj
    · rw [withNew_new]
      exact iff_of_true rfl (Nat.succ_ne_zero 0)
  · rw [hs'] at hjf hkf ⊢
    rcases hcases j hj with hj | rfl <;> rcases hcases k hk with hk | rfl
    · rw [withNew_old hj] at hjf ⊢
      rw [withNew_old hk] at hkf ⊢
      exact hs.addresses j hj k hk hjf hkf
    · rw [withNew_old hj] at hjf ⊢
      rw [withNew_new]
      exact fun heq => absurd heq ((hvacant j hj).resolve_left hjf)
    · rw [withNew_old hk] at hkf ⊢
      rw [withNew_new]
      exact fun heq => absurd heq.symm ((hvacant k hk).resolve_left hkf)
    · exact fun _ => rfl

/-- The new proxy takes the place of one that is not alive any more. -/
theorem Tabled.make (hs : s.Tabled) (hdead : ∀ i < s.next, (s.proxy i).handle = h → (s.proxy i).phase ≠ .alive)
    (hs' : s'.proxy = s.withNew { handle := h, address }) (hnext : s'.next = s.next + 1)
    (hentry : ∀ k, s'.entry k = if k = h then { binder := some s.next, refs := some s.next } else s.entry k) :
    s'.Tabled := by
  refine ⟨fun k j hkj => ?_, fun j hj halive => ?_⟩
  · rw [hentry] at hkj ⊢
    rw [hs', hnext]
    split_ifs at hkj ⊢ with hk
    · obtain rfl : s.next = j := Option.some.inj hkj
      rw [withNew_new]
      exact ⟨rfl, Nat.lt_succ_self _, hk.symm, .inl rfl⟩
    · obtain ⟨hrefs, hj, hrest⟩ := hs.entries k j hkj
      rw [withNew_old hj]
      exact ⟨hrefs, Nat.lt_succ_of_lt hj, hrest⟩
  · rw [hnext] at hj
    rw [hs'] at halive ⊢
    rw [hentry]
    rcases Nat.lt_succ_iff_lt_or_eq.mp hj with hj | rfl
    · rw [withNew_old hj] at halive ⊢
      rw [if_neg fun hh => hdead j hj hh halive]
      exact hs.current j hj halive
    · rw [withNew_new, if_pos rfl]

end Make

theorem Inv.create (hs : s.Inv) (hlock : s.mLock = some (.creating h)) (pingDead : Bool) (created : Option ℕ)
    (hvacant : ∀ address ∈ created, s.Vacant address) : (s.create h pingDead created).Inv := by
  obtain ⟨hlen, hdead⟩ : Section.Valid s (.creating h) := hs.valid _ hlock
  have hextra : ∀ j, extra s.mLock j = 0 := by
    rw [hlock]
    exact fun _ => rfl
  unfold ProcessState.create
  split_ifs
  · exact hs.unlock hextra
  · cases created with
    | none => exact (hs.unlock hextra).clear rfl hlen rfl hdead
    | some address =>
      refine ⟨hs.counted.make hextra (hvacant address rfl) rfl rfl rfl,
        hs.tabled.make hdead rfl rfl fun k => entry_setEntry hlen k, nofun, fun e he => ?_⟩
      rcases mem_cons.mp he with rfl | he
      · rfl
      · exact hs.good e he

/-- The proxy whose destructor has come to `expungeHandle` is not alive. -/
theorem Inv.expunged (hs : s.Inv) (hphase : (s.proxy i).phase = .destructing) (hi : i < s.next)
    (hgone : (s.entry (s.proxy i).handle).binder ≠ some i) :
    (s.setProxy i { s.proxy i with phase := .expunged }).Inv := by
  have hzero : (s.proxy i).weak = 0 := by
    by_contra hne
    have := (hs.counted.alive i hi).mpr hne
    simp [hphase] at this
  refine hs.setProxy (l := s.mLock) rfl rfl (hs.counted.weak i hi) (fun _ _ => rfl) (by simp [hzero]) (by simp)
    (by simp [hphase]) (fun hb => absurd hb hgone) hs.valid

theorem Inv.expungeHandle {grow : Bool} (hs : s.Inv) (hlock : s.mLock = none) (hi : i < s.next)
    (hphase : (s.proxy i).phase = .destructing) : (s.expungeHandle i grow).Inv := by
  unfold ProcessState.expungeHandle
  dsimp only
  split
  · next hnone =>
    refine (hs.expunged hphase hi ?_).log (.inl rfl)
    have hentry : (s.setProxy i _).entry (s.proxy i).handle = {} := entry_of_lookup_none hnone
    change s.entry (s.proxy i).handle = {} at hentry
    simp [hentry]
  · next s₁ hsome =>
    obtain ⟨table, rfl, hlen, hentry⟩ := lookupHandleLocked_some hsome
    have htable : Inv { s with mHandleToObject := table } := hs.table hlock hentry
    have haddr (j : ℕ) : (update s.proxy i { s.proxy i with phase := .expunged } j).address =
        (s.proxy j).address := by
      by_cases hj : j = i
      · rw [hj, update_self]
      · rw [update_of_ne hj]
    split_ifs with hsame
    · -- the only proxy at this address is the one that is destroyed
      obtain ⟨j, hj, hja⟩ := Option.map_eq_some_iff.mp hsame
      have hj' : (entry { s with mHandleToObject := table } (s.proxy i).handle).binder = some j := hj
      obtain ⟨-, hjn, -, hjp⟩ := htable.tabled.entries _ j hj'
      have hji : j = i := by
        refine hs.counted.addresses j hjn i hi ?_ ?_ ((haddr j).symm.trans hja)
        · rcases hjp with hjp | hjp <;> exact fun heq => by simp [heq] at hjp
        · simp [hphase]
      subst hji
      refine Inv.log ?_ (.inr hj)
      have hdead : ∀ k < s.next, (s.proxy k).handle = (s.proxy j).handle → (s.proxy k).phase ≠ .alive := by
        intro k hk hh halive
        have hcurrent := htable.tabled.current k hk halive
        rw [hh, hj'] at hcurrent
        obtain rfl := Option.some.inj hcurrent
        simp [hphase] at halive
      have hclear := htable.clear (e := { entry { s with mHandleToObject := table } (s.proxy j).handle with
        binder := none }) hlock hlen rfl hdead
      refine hclear.expunged hphase hi ?_
      change ((setEntry { s with mHandleToObject := table } (s.proxy j).handle _).entry (s.proxy j).handle).binder ≠ _
      rw [entry_setEntry hlen, if_pos rfl]
      nofun
    · refine Inv.log ?_ (.inl rfl)
      refine htable.expunged hphase hi fun hb => hsame ?_
      exact Option.map_eq_some_iff.mpr ⟨i, hb, haddr i⟩

theorem Inv.finish (hs : s.Inv) (hi : i < s.next) (hphase : (s.proxy i).phase = .expunged) :
    (s.setProxy i { s.proxy i with phase := .finished }).Inv := by
  have hzero : (s.proxy i).weak = 0 := by
    by_contra hne
    have := (hs.counted.alive i hi).mpr hne
    simp [hphase] at this
  refine hs.setProxy (l := s.mLock) rfl rfl (hs.counted.weak i hi) (fun _ _ => rfl) (by simp [hzero]) (by simp)
    (by simp) (fun hb => ?_) hs.valid
  have hp := (hs.tabled.entries _ i hb).2.2.2
  simp [hphase] at hp

theorem Inv.step {a : Action} (hs : s.Inv) (hstep : s.step a = some s') : s'.Inv := by
  cases a with
  | getStrongProxyForHandle =>
    simp only [ProcessState.step] at hstep
    split at hstep
    · next hlock =>
      split at hstep
      · rw [← Option.some.inj hstep]
        exact hs
      · next s₁ hlookup =>
        obtain ⟨table, rfl, hlen, hentry⟩ := lookupHandleLocked_some hlookup
        rw [← Option.some.inj hstep]
        exact (hs.table hlock hentry).lock_found hlock hlen
    · cases hstep
  | attempt =>
    simp only [ProcessState.step] at hstep
    split at hstep
    · next h hlock =>
      rw [← Option.some.inj hstep]
      exact hs.attempt hlock
    · cases hstep
  | create pingDead created =>
    simp only [ProcessState.step] at hstep
    split at hstep
    · next h hlock =>
      split_ifs at hstep with hvacant
      rw [← Option.some.inj hstep]
      exact hs.create hlock pingDead created hvacant
    · cases hstep
  | force =>
    simp only [ProcessState.step] at hstep
    split at hstep
    · next h i hlock =>
      rw [← Option.some.inj hstep]
      exact hs.force hlock
    · cases hstep
  | give =>
    simp only [ProcessState.step] at hstep
    split at hstep
    · next h i hlock =>
      rw [← Option.some.inj hstep]
      exact hs.give hlock
    · cases hstep
  | incWeak =>
    simp only [ProcessState.step] at hstep
    split_ifs at hstep with hheld
    rw [← Option.some.inj hstep]
    exact hs.incWeak hheld.1 hheld.2
  | decWeak =>
    simp only [ProcessState.step] at hstep
    split_ifs at hstep with hheld
    rw [← Option.some.inj hstep]
    exact hs.decWeak hheld.1 hheld.2
  | expungeHandle =>
    simp only [ProcessState.step] at hstep
    split at hstep
    · next hlock =>
      split_ifs at hstep with hphase
      rw [← Option.some.inj hstep]
      exact hs.expungeHandle hlock hphase.1 hphase.2
    · cases hstep
  | finish =>
    simp only [ProcessState.step] at hstep
    split_ifs at hstep with hphase
    rw [← Option.some.inj hstep]
    exact hs.finish hphase.1 hphase.2

/-- At most one proxy of a handle has references, only such a proxy is given to a caller, no pointer of an entry
is followed once its proxy is gone, and `expungeHandle` clears no entry of another proxy. -/
theorem one_proxy_per_handle (hs : Reachable step Free {} s) :
    (∀ i < s.next, ∀ j < s.next, (s.proxy i).handle = (s.proxy j).handle → (s.proxy i).weak ≠ 0 →
      (s.proxy j).weak ≠ 0 → i = j) ∧
    (∀ i zeroed, .given i zeroed ∈ s.history → zeroed = false) ∧
    (∀ ptr finished, .deref ptr finished ∈ s.history → ptr ≠ none ∧ finished = false) ∧
    ∀ i cleared, .expunged i cleared ∈ s.history → cleared = none ∨ cleared = some i := by
  have hinv : s.Inv := hs.invariant Inv .init fun _ _ _ h _ hstep => h.step hstep
  refine ⟨?_, fun i zeroed he => hinv.good _ he, fun ptr finished he => hinv.good _ he,
    fun i cleared he => hinv.good _ he⟩
  intro i hi j hj hhandle hwi hwj
  have hci := hinv.tabled.current i hi ((hinv.counted.alive i hi).mpr hwi)
  have hcj := hinv.tabled.current j hj ((hinv.counted.alive j hj).mpr hwj)
  rw [hhandle, hcj] at hci
  exact (Option.some.inj hci).symm

/-- A new reference arrives while the old proxy is in its destructor. -/
theorem one_proxy_per_handle_replaced : ∃ s : ProcessState, s.entry 3 = ⟨some 1, some 1⟩ ∧
    .expunged 0 none ∈ s.history ∧ ∀ i cleared, .expunged i cleared ∈ s.history → cleared = none ∨ cleared = some i := by
  obtain ⟨s, hs, hentry, hmem⟩ := exists_reachable step Free {}
    [.getStrongProxyForHandle 3 true, .attempt, .create false (some 100), .decWeak 0, .getStrongProxyForHandle 3 true,
      .attempt, .create false (some 200), .expungeHandle 0 true, .finish 0, .getStrongProxyForHandle 3 true, .attempt,
      .force, .give]
    (fun s => s.entry 3 = ⟨some 1, some 1⟩ ∧ .expunged 0 none ∈ s.history) (by decide)
  exact ⟨s, hentry, hmem, (one_proxy_per_handle hs).2.2.2⟩

end Binder.ProcessState
