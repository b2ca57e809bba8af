import Binder.Lib.Transition

/-! The `ABpBinder` that stands for a remote binder, found through a weak pointer attached to it. -/
namespace Binder.Ndk.Wrapper
open Binder.Lib Function

/-- Where a thread stands in `lookupOrCreateFromBinder`. -/
inductive Lookup
  | idle
  | missing
  | found
  deriving DecidableEq, Repr

/-- `value` is the attached `ABpBinderTag::Value` with its weak pointer; `cleanups` counts the calls of
`onLastStrongRef` for a wrapper that have not cleared it yet, and `received` lists what lookups returned. -/
structure State where
  value : Option (Option ℕ) := none
  strong : ℕ → ℕ := fun _ => 0
  made : ℕ := 0
  lookups : ℕ → Lookup := fun _ => .idle
  cleanups : ℕ → ℕ := fun _ => 0
  received : List ℕ := []
  crashed : Bool := false

inductive Op
  | findObject (t : ℕ)
  | attachObject (t : ℕ)
  | withLock (t : ℕ)
  | incStrong (w : ℕ)
  | decStrong (w : ℕ)
  | onLastStrongRef (w : ℕ)
  deriving DecidableEq, Repr

namespace State

variable {s s' : State} {op : Op} {t w : ℕ}

def goTo (t : ℕ) (l : Lookup) (s : State) : State := { s with lookups := update s.lookups t l }

/-- The caller gets a strong reference to the wrapper. -/
def receive (w : ℕ) (s : State) : State :=
  { s with strong := update s.strong w (s.strong w + 1), received := w :: s.received }

/-- The section of `lookupOrCreateFromBinder` under the binder's lock. The caller holds the binder, so that a
wrapper is promoted also when it has lost its last strong reference. -/
def promoteOrMake (stored : Option ℕ) (s : State) : State :=
  match stored with
  | some w => s.receive w
  | none => { s.receive s.made with value := some (some s.made), made := s.made + 1 }

def step (s : State) : Op → Option State
  | .findObject t => match s.lookups t with
    | .idle => some (s.goTo t (if s.value.isSome then .found else .missing))
    | _ => none
  | .attachObject t => match s.lookups t with
    | .missing => some { s.goTo t .found with value := s.value.orElse fun _ => some none }
    | _ => none
  | .withLock t => match s.lookups t, s.value with
    | .found, some stored => some ((s.promoteOrMake stored).goTo t .idle)
    | _, _ => none
  | .incStrong w => if s.strong w = 0 then none
    else some { s with strong := update s.strong w (s.strong w + 1) }
  | .decStrong w => if s.strong w = 0 then none
    else some { s with
      strong := update s.strong w (s.strong w - 1)
      cleanups := if s.strong w = 1 then update s.cleanups w (s.cleanups w + 1) else s.cleanups }
  | .onLastStrongRef w => if s.cleanups w = 0 then none
    else match s.value with
      | none => some { s with crashed := true }
      | some _ => some { s with value := some none, cleanups := update s.cleanups w (s.cleanups w - 1) }

/-- No lookup has promoted or made the stored wrapper again before the cleanup clears it. -/
def OpOk (s : State) : Op → Prop
  | .onLastStrongRef _ => ∀ stored ∈ s.value, ∀ w ∈ stored, s.strong w = 0
  | _ => True

instance (s : State) : (op : Op) → Decidable (OpOk s op)
  | .onLastStrongRef _ => inferInstanceAs (Decidable (∀ stored ∈ _, ∀ w ∈ _, _))
  | .findObject _ | .attachObject _ | .withLock _ | .incStrong _ | .decStrong _ => .isTrue trivial

def OneWrapper (s : State) : Prop := ∀ w w', 0 < s.strong w → 0 < s.strong w' → w = w'

/-- A wrapper with strong references is the stored one. -/
structure Stored (s : State) : Prop where
  live : ∀ w, 0 < s.strong w → s.value = some (some w)
  made : ∀ w, s.value = some (some w) → w < s.made
  found : ∀ t, s.lookups t = .found → s.value.isSome = true
  cleanups : ∀ w, 0 < s.cleanups w → s.value.isSome = true
  checked : s.crashed = false

theorem stored_init : Stored {} := by
  constructor <;> simp

theorem Stored.one (h : Stored s) : s.OneWrapper := by
  intro w w' hw hw'
  have hval := h.live w hw
  rw [h.live w' hw'] at hval
  simpa using hval.symm

theorem Stored.goTo (h : Stored s) {l : Lookup} (hl : l = .found → s.value.isSome = true) : Stored (s.goTo t l) := by
  constructor
  case found =>
    intro t' ht'
    simp only [State.goTo, update_apply] at ht'
    split_ifs at ht'
    · exact hl ht'
    · exact h.found t' ht'
  case live => exact h.live
  case made => exact h.made
  case cleanups => exact h.cleanups
  case checked => exact h.checked

/-- Counts change, but no wrapper comes back to life. -/
theorem Stored.counted (h : Stored s) {strong cleanups : ℕ → ℕ} (hstrong : ∀ w, 0 < strong w → 0 < s.strong w)
    (hcleanups : ∀ w, 0 < cleanups w → s.value.isSome = true) :
    Stored { s with strong := strong, cleanups := cleanups } where
  live w hw := h.live w (hstrong w hw)
  made := h.made
  found := h.found
  cleanups := hcleanups
  checked := h.checked

theorem strong_receive (s : State) (w v : ℕ) : (s.receive w).strong v = if v = w then s.strong w + 1 else s.strong v := by
  simp [receive, update_apply]

theorem Stored.promoteOrMake (h : Stored s) {stored : Option ℕ} (hval : s.value = some stored) :
    Stored (s.promoteOrMake stored) := by
  cases stored with
  | some w =>
    constructor
    case live =>
      intro v hv
      change 0 < (s.receive w).strong v at hv
      rw [strong_receive] at hv
      split_ifs at hv with hvw
      · exact hvw ▸ hval
      · exact h.live v hv
    case made => exact h.made
    case found => exact h.found
    case cleanups => exact h.cleanups
    case checked => exact h.checked
  | none =>
    constructor
    case live =>
      intro v hv
      change 0 < (s.receive s.made).strong v at hv
      rw [strong_receive] at hv
      split_ifs at hv with hvw
      · rw [hvw]
        rfl
      · have hlive := h.live v hv
        rw [hval] at hlive
        cases hlive
    case made =>
      intro v hv
      cases hv
      exact Nat.lt_succ_self _
    case found => exact fun _ _ => rfl
    case cleanups => exact fun _ _ => rfl
    case checked => exact h.checked

theorem Stored.step (h : Stored s) (hok : OpOk s op) (hs : step s op = some s') : Stored s' := by
  cases op with
  | findObject =>
    simp only [State.step] at hs
    split at hs
    case h_2 => cases hs
    case h_1 =>
      cases hs
      apply h.goTo
      split_ifs with hval
      · exact fun _ => hval
      · exact fun hne => nomatch hne
  | attachObject t =>
    simp only [State.step] at hs
    split at hs
    case h_2 => cases hs
    case h_1 =>
      cases hs
      cases hval : s.value with
      | some stored =>
        have hsame : { s.goTo t .found with value := (some stored).orElse fun _ => some none } = s.goTo t .found := by
          simp [State.goTo, hval]
        rw [hsame]
        exact h.goTo fun _ => by simp [hval]
      | none =>
        have hlive := h.live
        rw [hval] at hlive
        constructor
        case live => exact fun w hw => nomatch hlive w hw
        case made => simp
        case found => simp
        case cleanups => simp
        case checked => exact h.checked
  | withLock =>
    simp only [State.step] at hs
    split at hs
    case h_2 => cases hs
    case h_1 stored _ hval =>
      cases hs
      exact (h.promoteOrMake hval).goTo fun hne => nomatch hne
  | incStrong =>
    simp only [State.step] at hs
    split_ifs at hs with hzero
    cases hs
    apply h.counted _ h.cleanups
    intro v hv
    simp only [update_apply] at hv
    split_ifs at hv with hvw
    · rw [hvw]
      omega
    · exact hv
  | decStrong w =>
    by_cases hzero : s.strong w = 0
    · simp [State.step, hzero] at hs
    · simp only [State.step, if_neg hzero] at hs
      cases hs
      have hval : s.value = some (some w) := h.live w (by omega)
      apply h.counted
      · intro v hv
        simp only [update_apply] at hv
        split_ifs at hv with hvw
        · rw [hvw]
          omega
        · exact hv
      · simp [hval]
  | onLastStrongRef w =>
    simp only [State.step] at hs
    split_ifs at hs with hzero
    have hattached := h.cleanups w (by omega)
    split at hs
    case h_1 hval => simp [hval] at hattached
    case h_2 stored hval =>
      cases hs
      constructor
      case live =>
        intro v hv
        have hstored := h.live v hv
        have hnone := hok (some v) hstored v rfl
        exact absurd hnone (Nat.pos_iff_ne_zero.mp hv)
      case made => simp
      case found => simp
      case cleanups => simp
      case checked => exact h.checked

theorem stored_of_reachable (h : Reachable step OpOk {} s) : Stored s :=
  h.invariant Stored stored_init fun _ _ _ hk hok hs => hk.step hok hs

/-- Whatever a thread is doing, it can go on to return from a lookup while a wrapper is attached. -/
theorem reachable_lookup {stored : Option ℕ} (hval : s.value = some stored) (t : ℕ) :
    ∃ s', Reachable step OpOk s s' ∧ s'.strong = (s.promoteOrMake stored).strong := by
  have hlast {u : State} (hu : u.lookups t = .found) (hvalue : u.value = some stored) (hmade : u.made = s.made)
      (hstrong : u.strong = s.strong) (hreach : Reachable step OpOk s u) :
      ∃ s', Reachable step OpOk s s' ∧ s'.strong = (s.promoteOrMake stored).strong := by
    have hs : step u (.withLock t) = some ((u.promoteOrMake stored).goTo t .idle) := by
      simp only [step, hu, hvalue]
    refine ⟨_, .next hreach (by trivial) hs, ?_⟩
    cases stored <;> simp [State.goTo, promoteOrMake, receive, hmade, hstrong]
  cases hl : s.lookups t with
  | found => exact hlast hl hval rfl rfl .init
  | idle =>
    have hok : OpOk s (.findObject t) := trivial
    have hs : step s (.findObject t) = some (s.goTo t .found) := by simp [step, hl, hval]
    have hfound : (s.goTo t .found).lookups t = .found := update_self ..
    exact hlast hfound hval rfl rfl (.next .init hok hs)
  | missing =>
    have hok : OpOk s (.attachObject t) := trivial
    have hs : step s (.attachObject t) = some (s.goTo t .found) := by simp [step, hl, hval, State.goTo]
    have hfound : (s.goTo t .found).lookups t = .found := update_self ..
    exact hlast hfound hval rfl rfl (.next .init hok hs)

/-- Once the stored wrapper is forgotten while it has strong references, the next lookup makes a second one. -/
theorem second_wrapper (h : Stored s) (hok : ¬ OpOk s op) (hs : step s op = some s') :
    ∃ s'', Reachable step OpOk s' s'' ∧ ¬ s''.OneWrapper := by
  cases op with
  | findObject | attachObject | withLock | incStrong | decStrong => exact absurd trivial hok
  | onLastStrongRef w =>
    simp only [OpOk, not_forall] at hok
    obtain ⟨stored, hval, v, hv, hstrong⟩ := hok
    have hval : s.value = some (some v) := by rw [← hv]; exact hval
    have hv : v < s.made := h.made v hval
    simp only [step, hval] at hs
    split_ifs at hs
    cases hs
    obtain ⟨s'', hreach, hcounts⟩ := reachable_lookup
      (s := { s with value := some none, cleanups := update s.cleanups w (s.cleanups w - 1) }) rfl 0
    refine ⟨s'', hreach, fun hone => ?_⟩
    have hold : 0 < s''.strong v := by
      rw [hcounts]
      simp only [promoteOrMake, strong_receive, if_neg (Nat.ne_of_lt hv)]
      omega
    have hnew : 0 < s''.strong s.made := by
      rw [hcounts]
      simp [promoteOrMake, strong_receive]
    have hsame := hone v s.made hold hnew
    omega

/-- Lookups return the only wrapper, as long as and only if no cleanup forgets a wrapper that is in use. -/
theorem one_wrapper (h : Reachable step OpOk {} s) : (s.OneWrapper ∧ s.crashed = false) ∧
      (∀ t s', step s (.withLock t) = some s' →
        ∃ w, s'.received = w :: s.received ∧ ∀ w', 0 < s'.strong w' ↔ w' = w) ∧
      ∀ op s', step s op = some s' → (OpOk s op ↔ ∀ s'', Reachable step OpOk s' s'' → s''.OneWrapper) := by
  have hstored := stored_of_reachable h
  refine ⟨⟨hstored.one, hstored.checked⟩, ?_, ?_⟩
  · intro t s' hs
    have hone := (hstored.step (by trivial) hs).one
    simp only [step] at hs
    split at hs
    case h_2 => cases hs
    case h_1 stored _ hval =>
      cases hs
      have hgot : ∃ w, (s.promoteOrMake stored).received = w :: s.received ∧
          0 < (s.promoteOrMake stored).strong w := by
        cases stored <;> exact ⟨_, rfl, by simp [promoteOrMake, strong_receive]⟩
      obtain ⟨w, hreceived, hpos⟩ := hgot
      exact ⟨w, hreceived, fun w' => ⟨fun hw' => hone w' w hw' hpos, fun hw' => hw' ▸ hpos⟩⟩
  · intro op s' hs
    constructor
    · intro hok s'' hreach
      have hstored' : Stored s'' :=
        hreach.invariant Stored (hstored.step hok hs) fun _ _ _ hk hok hs => hk.step hok hs
      exact hstored'.one
    · intro hall
      by_contra hok
      obtain ⟨s'', hreach, htwo⟩ := second_wrapper hstored hok hs
      exact htwo (hall s'' hreach)

/-- Two threads attach at once and get the same wrapper, and both get the next one behind its cleanup. -/
theorem one_wrapper_again : ∃ s, Reachable step OpOk {} s ∧ s.received = [1, 1, 0, 0] ∧ s.OneWrapper := by
  obtain ⟨s, hs, hreceived⟩ := exists_reachable step OpOk {}
    [.findObject 0, .findObject 1, .attachObject 0, .attachObject 1, .withLock 0, .withLock 1, .decStrong 0, .decStrong 0,
      .onLastStrongRef 0, .findObject 0, .withLock 0, .findObject 1, .withLock 1]
    (fun s => s.received = [1, 1, 0, 0]) (by decide +kernel)
  exact ⟨s, hs, hreceived, (one_wrapper hs).1.1⟩

/-- The wrapper is revived between the loss of its last strong reference and the cleanup, which forgets it. -/
theorem not_one_wrapper : ∃ s, Reachable step Free {} s ∧ s.received = [1, 0, 0] ∧ ¬ s.OneWrapper := by
  obtain ⟨s, hs, hreceived, h0, h1⟩ := exists_reachable step Free {}
    [.findObject 0, .attachObject 0, .withLock 0, .decStrong 0, .findObject 1, .withLock 1, .onLastStrongRef 0,
      .findObject 2, .withLock 2]
    (fun s => s.received = [1, 0, 0] ∧ 0 < s.strong 0 ∧ 0 < s.strong 1) (by decide +kernel)
  refine ⟨s, hs, hreceived, fun hone => ?_⟩
  exact absurd (hone 0 1 h0 h1) (by decide)

end State

end Binder.Ndk.Wrapper
