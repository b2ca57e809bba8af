import Mathlib.Data.List.Count
import Binder.Lib.Ledger
import Binder.Lib.Transition

/-! Heaps that are mapped once for all proxies of a binder, and how many proxies hold them. -/
namespace Binder.MemoryHeap
open Binder.Lib List Function

/-- A `BpMemoryHeap` outside the cache; a heap id of `-1` is `none`. -/
structure Proxy where
  binder : ℕ
  mHeapId : Option ℕ := none
  live : Bool := true
  deriving DecidableEq, Repr

/-- The destructor calls `free_heap` for the binder. -/
def Proxy.frees (b : ℕ) (p : Proxy) : Bool := p.live && p.mHeapId.isSome && decide (p.binder = b)

/-- Where a call of `assertMapped` stands that found no heap id, with the heap of the cache it works on. -/
inductive Phase
  | finding
  | found (heap : ℕ)
  | checking (heap : ℕ)
  | storing
  | failed
  | returned
  deriving DecidableEq, Repr

/-- Between `find_heap` and the end of the call. -/
def Phase.counts : Phase → Bool
  | .finding | .returned => false
  | .found _ | .checking _ | .storing | .failed => true

structure Call where
  proxy : ℕ
  binder : ℕ
  phase : Phase := .finding
  deriving DecidableEq, Repr

/-- The call has raised the count for the binder. -/
def Call.counts (b : ℕ) (c : Call) : Bool := c.phase.counts && decide (c.binder = b)

structure HeapInfo where
  heap : ℕ
  count : ℕ
  deriving DecidableEq, Repr

/-- `heaps` tells for each heap of the cache whether it is mapped. Proxies and calls stay listed when they are over. -/
structure State where
  mHeapCache : ℕ → Option HeapInfo := fun _ => none
  heaps : List Bool := []
  proxies : List Proxy := []
  calls : List Call := []

/-- A call goes on with what mapping the heap and duplicating its descriptor give, where it comes to that. -/
inductive Op
  | create (binder : ℕ)
  | assertMapped (proxy : ℕ)
  | goOn (call : ℕ) (mapped : Bool) (fd : Option ℕ)
  | destroy (proxy : ℕ)
  deriving DecidableEq, Repr

namespace State

variable {s s' : State} {op : Op} {b i : ℕ} {p : Proxy} {c : Call}

def count (b : ℕ) (s : State) : ℕ := ((s.mHeapCache b).map HeapInfo.count).getD 0

def findHeap (b : ℕ) (s : State) : State × ℕ :=
  match s.mHeapCache b with
  | some info => ({ s with mHeapCache := update s.mHeapCache b (some { info with count := info.count + 1 }) },
      info.heap)
  | none => ({ s with
      mHeapCache := update s.mHeapCache b (some ⟨s.heaps.length, 1⟩)
      heaps := s.heaps ++ [false] }, s.heaps.length)

def freeHeap (b : ℕ) (s : State) : State :=
  match s.mHeapCache b with
  | some info => { s with
      mHeapCache := update s.mHeapCache b
        (if info.count - 1 = 0 then none else some { info with count := info.count - 1 }) }
  | none => s

def goTo (i : ℕ) (c : Call) (phase : Phase) (s : State) : State :=
  { s with calls := s.calls.set i { c with phase := phase } }

/-- A proxy is destroyed while nobody uses it. -/
def Unused (i : ℕ) (s : State) : Prop := ∀ c ∈ s.calls, c.proxy = i → c.phase = .returned
deriving Decidable

/-- The section of `assertMapped` under the lock of the proxy. -/
def storeHeapId (c : Call) (fd : Option ℕ) (s : State) : State :=
  match s.proxies[c.proxy]? with
  | some p => if p.mHeapId = none then { s with proxies := s.proxies.set c.proxy { p with mHeapId := fd } } else s
  | none => s

def destroyed (i : ℕ) (p : Proxy) (s : State) : State :=
  let s := { s with proxies := s.proxies.set i { p with live := false } }
  if p.mHeapId ≠ none then s.freeHeap p.binder else s

def goOn (i : ℕ) (c : Call) (mapped : Bool) (fd : Option ℕ) (s : State) : Option State :=
  match c.phase with
  | .finding => some ((s.findHeap c.binder).1.goTo i c (.found (s.findHeap c.binder).2))
  | .found heap =>
    some ({ s with heaps := s.heaps.set heap (s.heaps.getD heap false || mapped) }.goTo i c (.checking heap))
  | .checking heap => some (s.goTo i c (if s.heaps.getD heap false then .storing else .failed))
  | .storing => some ((s.storeHeapId c fd).goTo i c .returned)
  | .failed => some ((s.freeHeap c.binder).goTo i c .returned)
  | .returned => none

def step (s : State) : Op → Option State
  | .create b => some { s with proxies := s.proxies ++ [{ binder := b }] }
  | .assertMapped i => (s.proxies[i]?).bind fun p =>
    if p.live = false then none
    else if p.mHeapId = none then some { s with calls := s.calls ++ [{ proxy := i, binder := p.binder }] }
    else some s
  | .goOn i mapped fd => (s.calls[i]?).bind fun c => s.goOn i c mapped fd
  | .destroy i => (s.proxies[i]?).bind fun p =>
    if p.live = true ∧ s.Unused i then some (s.destroyed i p) else none

/-- The call ends with a heap id to store, and finds none in its proxy. -/
def Stores (c : Call) (fd : Option ℕ) (s : State) : Prop := fd ≠ none ∧ ∀ p ∈ s.proxies[c.proxy]?, p.mHeapId = none
deriving Decidable

/-- The step ends a call that raised the count for the binder without a proxy that will lower it. -/
def leak (b : ℕ) (s : State) : Op → Bool
  | .goOn i _ fd => (s.calls[i]?).any fun c => c.phase = .storing && c.binder = b && !decide (s.Stores c fd)
  | _ => false

/-- Where a heap id is to be stored, there is one, and the proxy has none yet. -/
def OpOk (s : State) : Op → Prop
  | .goOn i _ fd => ∀ c ∈ s.calls[i]?, c.phase = .storing → s.Stores c fd
  | _ => True

instance (s : State) : (op : Op) → Decidable (OpOk s op)
  | .goOn .. => inferInstanceAs (Decidable (∀ c ∈ _, _ → _))
  | .create _ | .assertMapped _ | .destroy _ => .isTrue trivial

/-- How many live proxies call `free_heap` for the binder when they are destroyed. -/
def frees (b : ℕ) (s : State) : ℕ := s.proxies.countP (Proxy.frees b)

def inProgress (b : ℕ) (s : State) : ℕ := s.calls.countP (Call.counts b)

def Quiet (s : State) : Prop := ∀ c ∈ s.calls, c.phase = .returned

/-- The cache keeps a heap just as long as there are proxies that free it, with their number. -/
def Exact (s : State) : Prop :=
  ∀ b, (s.mHeapCache b).map HeapInfo.count = if s.frees b = 0 then none else some (s.frees b)

/-- What the stored counts exceed those who will lower them by. -/
def drift (b : ℕ) (s : State) : ℤ := s.count b - s.frees b - s.inProgress b

/-- Calls belong to proxies of their binder, which live as long as the call, and no stored count is zero. -/
structure Linked (s : State) : Prop where
  proxies : ∀ c ∈ s.calls, ∃ p, s.proxies[c.proxy]? = some p ∧ p.binder = c.binder ∧
    (c.phase ≠ .returned → p.live = true)
  positive : ∀ b info, s.mHeapCache b = some info → 0 < info.count

section Cache

theorem count_findHeap (s : State) (b b' : ℕ) :
    (s.findHeap b).1.count b' = s.count b' + (decide (b = b')).toNat := by
  unfold findHeap count
  split <;> rename_i hfound
  all_goals
    by_cases hb : b = b'
    · subst hb
      simp [hfound]
    · simp [update_of_ne (Ne.symm hb), hb]

theorem count_freeHeap (s : State) (b b' : ℕ) : (s.freeHeap b).count b' = s.count b' - (decide (b = b')).toNat := by
  unfold freeHeap count
  split <;> rename_i hfound
  all_goals
    by_cases hb : b = b'
    · subst hb
      try split_ifs
      all_goals simp_all
    · simp [update_of_ne (Ne.symm hb), hb]

theorem findHeap_frame (s : State) (b : ℕ) :
    (s.findHeap b).1.proxies = s.proxies ∧ (s.findHeap b).1.calls = s.calls := by
  unfold findHeap
  split <;> exact ⟨rfl, rfl⟩

theorem freeHeap_frame (s : State) (b : ℕ) :
    (s.freeHeap b).proxies = s.proxies ∧ (s.freeHeap b).calls = s.calls := by
  unfold freeHeap
  split <;> exact ⟨rfl, rfl⟩

theorem storeHeapId_calls (s : State) (c : Call) (fd : Option ℕ) : (s.storeHeapId c fd).calls = s.calls := by
  unfold storeHeapId
  split
  · split_ifs <;> rfl
  · rfl

theorem positive_findHeap (h : ∀ b info, s.mHeapCache b = some info → 0 < info.count) (b : ℕ) :
    ∀ b' info, (s.findHeap b).1.mHeapCache b' = some info → 0 < info.count := by
  intro b' info hinfo
  by_cases hb : b' = b
  · subst hb
    unfold findHeap at hinfo
    split at hinfo <;> (simp at hinfo; subst hinfo; simp)
  · apply h b' info
    unfold findHeap at hinfo
    split at hinfo <;> simpa [update_of_ne hb] using hinfo

theorem positive_freeHeap (h : ∀ b info, s.mHeapCache b = some info → 0 < info.count) (b : ℕ) :
    ∀ b' info, (s.freeHeap b).mHeapCache b' = some info → 0 < info.count := by
  intro b' info hinfo
  unfold freeHeap at hinfo
  split at hinfo
  · by_cases hb : b' = b
    · subst hb
      simp only [update_self] at hinfo
      split_ifs at hinfo
      cases hinfo
      dsimp only
      omega
    · exact h b' info (by simpa [update_of_ne hb] using hinfo)
  · exact h b' info hinfo

end Cache

theorem frees_set (h : s.proxies[i]? = some p) (q : Proxy) (b : ℕ) :
    ({ s with proxies := s.proxies.set i q }).frees b + (p.frees b).toNat = s.frees b + (q.frees b).toNat :=
  countP_set_add h (Proxy.frees b) q

theorem inProgress_goTo (h : s.calls[i]? = some c) (phase : Phase) (b : ℕ) :
    (s.goTo i c phase).inProgress b + (c.counts b).toNat =
      s.inProgress b + (({ c with phase := phase } : Call).counts b).toNat :=
  countP_set_add h (Call.counts b) _

theorem Linked.goTo (h : Linked s) (hc : s.calls[i]? = some c) {phase : Phase} (hphase : c.phase ≠ .returned) :
    Linked (s.goTo i c phase) where
  positive := h.positive
  proxies c' hc' := by
    rcases mem_or_eq_of_mem_set hc' with hold | rfl
    · exact h.proxies c' hold
    · obtain ⟨p, hp, hb, hlive⟩ := h.proxies c (mem_of_getElem? hc)
      exact ⟨p, hp, hb, fun _ => hlive hphase⟩

/-- A proxy changes, but keeps its binder, and lives on if it is used. -/
theorem Linked.set (h : Linked s) (hp : s.proxies[i]? = some p) {q : Proxy} (hb : q.binder = p.binder)
    (hlive : q.live = p.live ∨ s.Unused i) : Linked { s with proxies := s.proxies.set i q } where
  positive := h.positive
  proxies c hc := by
    obtain ⟨p', hp', hb', hlive'⟩ := h.proxies c hc
    by_cases hi : i = c.proxy
    · subst hi
      have hsame : p' = p := Option.some.inj (hp'.symm.trans hp)
      subst hsame
      have hlt := (List.getElem?_eq_some_iff.mp hp).1
      refine ⟨q, by simp [hlt], hb.trans hb', fun hphase => ?_⟩
      rcases hlive with hlive | hunused
      · exact hlive.trans (hlive' hphase)
      · exact absurd (hunused c hc rfl) hphase
    · exact ⟨p', by simp [List.getElem?_set_ne hi, hp'], hb', hlive'⟩

theorem Linked.cached (h : Linked s) {u : State} (hframe : u.proxies = s.proxies ∧ u.calls = s.calls)
    (hpos : ∀ b info, u.mHeapCache b = some info → 0 < info.count) : Linked u where
  positive := hpos
  proxies c hc := by
    rw [hframe.1]
    exact h.proxies c (hframe.2 ▸ hc)

theorem leak_of_ok (h : OpOk s op) (b : ℕ) : s.leak b op = false := by
  cases op with
  | goOn i =>
    cases hc : s.calls[i]? with
    | none => simp [leak, hc]
    | some c =>
      have hstores := h c hc
      simpa [leak, hc] using fun hphase _ => hstores hphase
  | _ => rfl

/-- What the balance of a step is made of. -/
structure Moved (s : State) (gain : ℕ → ℤ) (s' : State) : Prop where
  linked : Linked s'
  drift : ∀ b, s'.drift b = s.drift b + gain b

theorem moved_goTo (h : Linked s) (hc : s.calls[i]? = some c) (hphase : c.phase ≠ .returned) (phase : Phase) :
    Moved s (fun b => (c.counts b).toNat - (({ c with phase := phase } : Call).counts b).toNat) (s.goTo i c phase) where
  linked := h.goTo hc hphase
  drift b := by
    have hcount : (s.goTo i c phase).count b = s.count b := rfl
    have hfrees : (s.goTo i c phase).frees b = s.frees b := rfl
    have hcalls := inProgress_goTo hc phase b
    unfold drift
    omega

theorem moved_cached (h : Linked s) {u : State} (hframe : u.proxies = s.proxies ∧ u.calls = s.calls)
    (hpos : ∀ b info, u.mHeapCache b = some info → 0 < info.count) : Moved s (fun b => u.count b - s.count b) u where
  linked := h.cached hframe hpos
  drift b := by
    have hfrees : u.frees b = s.frees b := by rw [frees, hframe.1, frees]
    have hcalls : u.inProgress b = s.inProgress b := by rw [inProgress, hframe.2, inProgress]
    unfold drift
    omega

theorem moved_findHeap (h : Linked s) (b : ℕ) : Moved s (fun b' => (decide (b = b')).toNat) (s.findHeap b).1 := by
  have hmoved := moved_cached h (findHeap_frame s b) (positive_findHeap h.positive b)
  refine ⟨hmoved.linked, fun b' => ?_⟩
  rw [hmoved.drift, count_findHeap]
  omega

theorem moved_freeHeap (h : Linked s) (b : ℕ) (hpos : 0 < s.count b) :
    Moved s (fun b' => - (decide (b = b')).toNat) (s.freeHeap b) := by
  have hmoved := moved_cached h (freeHeap_frame s b) (positive_freeHeap h.positive b)
  refine ⟨hmoved.linked, fun b' => ?_⟩
  have hle : (decide (b = b')).toNat ≤ s.count b' := by
    by_cases hb : b = b'
    · subst hb
      simpa using Nat.succ_le_of_lt hpos
    · simp [hb]
  rw [hmoved.drift, count_freeHeap]
  omega

theorem moved_set (h : Linked s) (hp : s.proxies[i]? = some p) {q : Proxy} (hb : q.binder = p.binder)
    (hlive : q.live = p.live ∨ s.Unused i) :
    Moved s (fun b => (p.frees b).toNat - (q.frees b).toNat) { s with proxies := s.proxies.set i q } where
  linked := h.set hp hb hlive
  drift b := by
    have hfrees := frees_set hp q b
    have hcount : ({ s with proxies := s.proxies.set i q }).count b = s.count b := rfl
    have hcalls : ({ s with proxies := s.proxies.set i q }).inProgress b = s.inProgress b := rfl
    unfold drift
    omega

/-- Who will lower a count finds one. -/
theorem count_pos (hd : 0 ≤ s.drift b) (h : 0 < s.frees b + s.inProgress b) : 0 < s.count b := by
  unfold drift at hd
  omega

theorem moved_storeHeapId (h : Linked s) (hc : s.calls[i]? = some c) (hphase : c.phase = .storing) (fd : Option ℕ) :
    Moved s (fun b => - (decide (c.binder = b) && decide (s.Stores c fd)).toNat) (s.storeHeapId c fd) := by
  obtain ⟨p, hp, hb, hlive⟩ := h.proxies c (mem_of_getElem? hc)
  have hlive : p.live = true := hlive (by simp [hphase])
  simp only [storeHeapId, hp]
  split_ifs with hid
  · have hset := moved_set h hp (q := { p with mHeapId := fd }) rfl (.inl rfl)
    refine ⟨hset.linked, fun b => ?_⟩
    rw [hset.drift]
    cases fd <;> simp [Proxy.frees, Stores, hid, hp, hlive, hb]
  · refine ⟨h, fun b => ?_⟩
    simp [Stores, hp, hid]

theorem moved_destroyed (h : Linked s) (hp : s.proxies[i]? = some p) (hlive : p.live = true) (hunused : s.Unused i)
    (hd : ∀ b, 0 ≤ s.drift b) : Moved s (fun _ => 0) (s.destroyed i p) := by
  have hset := moved_set h hp (q := { p with live := false }) rfl (.inr hunused)
  have hafter (b : ℕ) : ({ p with live := false } : Proxy).frees b = false := by simp [Proxy.frees]
  unfold destroyed
  split_ifs with hid
  · have hbefore (b : ℕ) : p.frees b = decide (p.binder = b) := by
      simp [Proxy.frees, hlive, Option.isSome_iff_ne_none.mpr hid]
    have hmem : 0 < s.frees p.binder :=
      countP_pos_iff.mpr ⟨p, mem_of_getElem? hp, by simp [hbefore]⟩
    have hfreed := moved_freeHeap hset.linked p.binder (count_pos (hd p.binder) (by omega) : 0 < s.count p.binder)
    refine ⟨hfreed.linked, fun b => ?_⟩
    rw [hfreed.drift, hset.drift, hafter, hbefore]
    simp
  · refine ⟨hset.linked, fun b => ?_⟩
    have hbefore : p.frees b = false := by simp [Proxy.frees, not_not.mp hid]
    rw [hset.drift, hafter, hbefore]
    simp

/-- Only a call that ends without a proxy to lower its count changes the balance. -/
theorem Moved.goOn (h : Linked s) (hd : ∀ b, 0 ≤ s.drift b) (hc : s.calls[i]? = some c) {mapped : Bool} {fd : Option ℕ}
    (hs : s.goOn i c mapped fd = some s') : Moved s (fun b => (s.leak b (.goOn i mapped fd)).toNat) s' := by
  have hthen {u : State} {gain : ℕ → ℤ} (hu : Moved s gain u) (hcalls : u.calls = s.calls)
      (hphase : c.phase ≠ .returned) (phase : Phase)
      (hgain : ∀ b, gain b + ((c.counts b).toNat - (({ c with phase := phase } : Call).counts b).toNat) =
        (s.leak b (.goOn i mapped fd)).toNat) :
      Moved s (fun b => (s.leak b (.goOn i mapped fd)).toNat) (u.goTo i c phase) := by
    have hmoved := moved_goTo hu.linked (by rw [hcalls]; exact hc) hphase phase
    refine ⟨hmoved.linked, fun b => ?_⟩
    rw [hmoved.drift, hu.drift, ← hgain]
    omega
  have hsame : Moved s (fun _ => 0) s := ⟨h, fun b => by simp⟩
  unfold State.goOn at hs
  split at hs
  all_goals
    rename_i hphase
    cases hs
  · apply hthen (moved_findHeap h c.binder) (findHeap_frame s c.binder).2
    · simp [hphase]
    · simp [Call.counts, Phase.counts, hphase, leak, hc]
  · rename_i heap
    have hset : Moved s _ { s with heaps := s.heaps.set heap (s.heaps.getD heap false || mapped) } :=
      moved_cached h ⟨rfl, rfl⟩ h.positive
    apply hthen hset rfl
    · simp [hphase]
    · simp [Call.counts, Phase.counts, hphase, leak, hc, count]
  · apply hthen hsame rfl
    · simp [hphase]
    · intro b
      split_ifs <;> simp [Call.counts, Phase.counts, hphase, leak, hc]
  · apply hthen (moved_storeHeapId h hc hphase fd) (storeHeapId_calls s c fd)
    · simp [hphase]
    · intro b
      by_cases hb : c.binder = b <;> by_cases hstores : s.Stores c fd <;>
        simp [Call.counts, Phase.counts, hphase, leak, hc, hb, hstores]
  · have hcount : 0 < s.inProgress c.binder :=
      countP_pos_iff.mpr ⟨c, mem_of_getElem? hc, by simp [Call.counts, Phase.counts, hphase]⟩
    apply hthen (moved_freeHeap h c.binder (count_pos (hd c.binder) (by omega))) (freeHeap_frame s c.binder).2
    · simp [hphase]
    · simp [Call.counts, Phase.counts, hphase, leak, hc]

theorem step_moved (h : Linked s) (hd : ∀ b, 0 ≤ s.drift b) (hs : step s op = some s') :
    Moved s (fun b => (s.leak b op).toNat) s' := by
  cases op with
  | create =>
    cases hs
    constructor
    case linked =>
      constructor
      case positive => exact h.positive
      case proxies =>
        intro c hc
        obtain ⟨p, hp, hrest⟩ := h.proxies c hc
        have hlt := (List.getElem?_eq_some_iff.mp hp).1
        exact ⟨p, by rw [List.getElem?_append_left hlt]; exact hp, hrest⟩
    case drift => simp [State.drift, count, frees, inProgress, leak, Proxy.frees]
  | assertMapped =>
    obtain ⟨p, hp, hs⟩ := Option.bind_eq_some_iff.mp hs
    split_ifs at hs with hdead hid
    · cases hs
      constructor
      case linked =>
        constructor
        case positive => exact h.positive
        case proxies =>
          intro c hc
          rcases mem_append.mp hc with hc | hc
          · exact h.proxies c hc
          · cases mem_singleton.mp hc
            exact ⟨p, hp, rfl, fun _ => by simpa using hdead⟩
      case drift => simp [State.drift, count, frees, inProgress, leak, Call.counts, Phase.counts]
    · cases hs
      exact ⟨h, by simp [leak]⟩
  | goOn =>
    obtain ⟨c, hc, hs⟩ := Option.bind_eq_some_iff.mp hs
    exact .goOn h hd hc hs
  | destroy =>
    obtain ⟨p, hp, hs⟩ := Option.bind_eq_some_iff.mp hs
    split_ifs at hs with hlive
    cases hs
    exact moved_destroyed h hp hlive.1 hlive.2 hd

/-- Nothing lowers a count that has been raised for nobody. -/
structure Drifted (d : ℕ → ℤ) (s : State) : Prop where
  linked : Linked s
  least : ∀ b, d b ≤ s.drift b

theorem Drifted.step {d : ℕ → ℤ} (h : Drifted d s) (hd : ∀ b, 0 ≤ d b) (hs : step s op = some s') : Drifted d s' where
  linked := (step_moved h.linked (fun b => Int.le_trans (hd b) (h.least b)) hs).linked
  least b := by
    have hdrift := (step_moved h.linked (fun b => Int.le_trans (hd b) (h.least b)) hs).drift b
    have hleast := h.least b
    omega

theorem balanced_of_reachable (h : Reachable step OpOk {} s) : Linked s ∧ ∀ b, s.drift b = 0 := by
  apply h.invariant fun s => Linked s ∧ ∀ b, s.drift b = 0
  · constructor
    · constructor <;> simp
    · intro b
      simp [drift, count, frees, inProgress]
  · rintro s op s' ⟨hlinked, hzero⟩ hok hs
    have hmoved := step_moved hlinked (fun b => Int.le_of_eq (hzero b).symm) hs
    refine ⟨hmoved.linked, fun b => ?_⟩
    rw [hmoved.drift, hzero, leak_of_ok hok]
    rfl

theorem inProgress_of_quiet (h : s.Quiet) (b : ℕ) : s.inProgress b = 0 := by
  apply countP_eq_zero.mpr
  intro c hc
  simp [Call.counts, h c hc, Phase.counts]

theorem exact_of_balanced (hlinked : Linked s) (hzero : ∀ b, s.drift b = 0) (hquiet : s.Quiet) : s.Exact := by
  intro b
  have hdrift := hzero b
  have hcalls := inProgress_of_quiet hquiet b
  cases hinfo : s.mHeapCache b with
  | none =>
    have hcount : s.count b = 0 := by simp [count, hinfo]
    have hfrees : s.frees b = 0 := by
      unfold drift at hdrift
      omega
    simp [hfrees]
  | some info =>
    have hcount : s.count b = info.count := by simp [count, hinfo]
    have hfrees : s.frees b = info.count := by
      unfold drift at hdrift
      omega
    have hpos : info.count ≠ 0 := Nat.pos_iff_ne_zero.mp (hlinked.positive b info hinfo)
    simp [hfrees, hpos]

theorem not_exact_of_drift (hdrift : 0 < s.drift b) : ¬ s.Exact := by
  intro hexact
  have hcount : s.count b = s.frees b := by
    have hb := hexact b
    unfold count
    split_ifs at hb with hnone
    · rw [hb, hnone]
      rfl
    · rw [hb]
      rfl
  unfold drift at hdrift
  omega

theorem exists_leak (hok : ¬ OpOk s op) (hs : step s op = some s') : ∃ b, s.leak b op = true := by
  cases op with
  | goOn _ _ fd =>
    obtain ⟨c, hc, -⟩ := Option.bind_eq_some_iff.mp hs
    have hleaks : c.phase = .storing ∧ ¬ s.Stores c fd := by simpa [OpOk, hc] using hok
    exact ⟨c.binder, by simp [leak, hc, hleaks]⟩
  | _ => exact absurd trivial hok

/-- The counts are exact between calls, until a call finds the heap id stored already or has none to store; then
they never are again. -/
theorem heap_counts (h : Reachable step OpOk {} s) :
    (s.Quiet → s.Exact) ∧ ∀ op s', step s op = some s' → ¬ OpOk s op →
      ∀ s'', Reachable step Free s' s'' → s''.Quiet → ¬ s''.Exact := by
  obtain ⟨hlinked, hzero⟩ := balanced_of_reachable h
  constructor
  · exact exact_of_balanced hlinked hzero
  · intro op s' hs hok s'' hreach _
    obtain ⟨b, hleak⟩ := exists_leak hok hs
    have hmoved := step_moved hlinked (fun b => Int.le_of_eq (hzero b).symm) hs
    have hstart : Drifted (fun b => (s.leak b op).toNat) s' := by
      refine ⟨hmoved.linked, fun b => ?_⟩
      rw [hmoved.drift, hzero]
      omega
    have hend := hreach.invariant (Drifted _) hstart fun _ _ _ hk _ hs => hk.step (fun b => by omega) hs
    have hpos : 0 < s''.drift b := by
      have hleast := hend.least b
      rw [hleak] at hleast
      exact Int.lt_of_lt_of_le (by decide) hleast
    exact not_exact_of_drift hpos

/-- Two proxies share a heap, a third is not mapped because mapping fails, and the first is destroyed. -/
theorem heap_counts_shared : ∃ s, Reachable step OpOk {} s ∧ s.Exact ∧ s.mHeapCache 7 = some ⟨0, 1⟩ ∧
    s.mHeapCache 8 = none := by
  obtain ⟨s, hs, hquiet, hrest⟩ := exists_reachable step OpOk {}
    ([.create 7, .create 7, .create 8, .assertMapped 0, .assertMapped 1, .assertMapped 2] ++
      [1, 0, 1, 0, 0, 0, 1, 1].map (Op.goOn · true (some 5)) ++ List.replicate 4 (.goOn 2 false none) ++ [.destroy 0])
    (fun s => (∀ c ∈ s.calls, c.phase = .returned) ∧ s.mHeapCache 7 = some ⟨0, 1⟩ ∧ s.mHeapCache 8 = none)
    (by decide +kernel)
  exact ⟨s, hs, (heap_counts hs).1 hquiet, hrest⟩

/-- Two threads map the same proxy at once: both raise the count, and the destructor lowers it once. -/
theorem not_heap_counts : ∃ s, Reachable step Free {} s ∧ s.Quiet ∧ s.frees 7 = 0 ∧ s.mHeapCache 7 = some ⟨0, 1⟩ ∧
    ¬ s.Exact := by
  obtain ⟨s, hs, hquiet, hfrees, hcached⟩ := exists_reachable step Free {}
    ([.create 7, .assertMapped 0, .assertMapped 0] ++ [0, 1, 0, 1, 0, 1, 0, 1].map (Op.goOn · true (some 5)) ++
      [.destroy 0])
    (fun s => (∀ c ∈ s.calls, c.phase = .returned) ∧ s.frees 7 = 0 ∧ s.mHeapCache 7 = some ⟨0, 1⟩) (by decide +kernel)
  refine ⟨s, hs, hquiet, hfrees, hcached, fun hexact => ?_⟩
  have hb := hexact 7
  simp [hfrees, hcached] at hb

end State

end Binder.MemoryHeap
