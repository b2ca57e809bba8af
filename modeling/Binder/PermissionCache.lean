import Mathlib.Data.Prod.Lex
import Binder.Lib.OrdMap
import Binder.Lib.Transition

/-! Answers of the permission controller that are kept until the next purge. -/
namespace Binder.PermissionCache
open Binder.Lib Function

variable {ν : Type} [LinearOrder ν]

/-- An answer, with the number of purges before its query was started. -/
structure Answer where
  granted : Bool
  started : ℕ
  deriving DecidableEq, Repr

/-- A request as it came in, with the number of purges before it. -/
structure Request (ν : Type) where
  permission : ν
  uid : ℕ
  began : ℕ
  deriving DecidableEq, Repr

/-- Where a thread stands in `checkPermission`. -/
inductive Stage (ν : Type)
  | idle
  | checking (r : Request ν)
  | missed (r : Request ν)
  | querying (r : Request ν) (started : ℕ)
  | answered (r : Request ν) (a : Answer)
  deriving DecidableEq, Repr

/-- What `checkPermission` returned: without an answer for root and for the process itself. -/
structure Returned where
  began : ℕ
  granted : Bool
  answer : Option Answer
  deriving DecidableEq, Repr

/-- The cache by user id and permission, what the threads are doing, how often it was purged, and what was returned. -/
structure State (ν : Type) [LinearOrder ν] where
  mCache : OrdMap (ℕ ×ₗ ν) Answer := .empty
  mPermissionNamesPool : OrdMap ν Unit := .empty
  stages : ℕ → Stage ν := fun _ => .idle
  purges : ℕ := 0
  returned : List Returned := []

namespace State

variable {s s' : State ν} {t : ℕ} {r : Request ν} {a : Answer}

def check (permission : ν) (uid : ℕ) (s : State ν) : Option Answer := s.mCache.find? (toLex (uid, permission))

/-- The name is taken from the pool if it is there, but not as its first entry. -/
def cache (permission : ν) (uid : ℕ) (a : Answer) (s : State ν) : State ν :=
  let index := s.mPermissionNamesPool.keys.idxOf? permission
  let pooled := match index with
    | some (_ + 1) => s.mPermissionNamesPool
    | some 0 | none => s.mPermissionNamesPool.insert permission ()
  { s with
    mPermissionNamesPool := pooled
    mCache := if (s.check permission uid).isSome then s.mCache else s.mCache.insert (toLex (uid, permission)) a }

def purge (s : State ν) : State ν := { s with mCache := .empty, purges := s.purges + 1 }

def goTo (t : ℕ) (stage : Stage ν) (s : State ν) : State ν := { s with stages := update s.stages t stage }

def finish (t : ℕ) (x : Returned) (s : State ν) : State ν := { s.goTo t .idle with returned := x :: s.returned }

inductive Op (ν : Type)
  | checkPermission (t : ℕ) (permission : ν) (pid uid : ℕ)
  | check (t : ℕ)
  | query (t : ℕ)
  | answer (t : ℕ) (granted : Bool)
  | cache (t : ℕ)
  | purgeCache
  deriving DecidableEq, Repr

/-- The lookup, the query and the insertion are separate steps; `self` is the process itself. -/
def step (self : ℕ) (s : State ν) : Op ν → Option (State ν)
  | .checkPermission t permission pid uid => match s.stages t with
    | .idle => some <| if uid = 0 ∨ pid = self then s.finish t ⟨s.purges, true, none⟩
      else s.goTo t (.checking ⟨permission, uid, s.purges⟩)
    | _ => none
  | .check t => match s.stages t with
    | .checking r => some <| match s.check r.permission r.uid with
      | some a => s.finish t ⟨r.began, a.granted, some a⟩
      | none => s.goTo t (.missed r)
    | _ => none
  | .query t => match s.stages t with
    | .missed r => some (s.goTo t (.querying r s.purges))
    | _ => none
  | .answer t granted => match s.stages t with
    | .querying r started => some (s.goTo t (.answered r ⟨granted, started⟩))
    | _ => none
  | .cache t => match s.stages t with
    | .answered r a => some ((s.cache r.permission r.uid a).finish t ⟨r.began, a.granted, some a⟩)
    | _ => none
  | .purgeCache => some s.purge

/-- An answer is cached that was asked for behind the last purge, or that is not kept because there is one already. -/
def OpOk (s : State ν) : Op ν → Prop
  | .cache t => match s.stages t with
    | .answered r a => a.started = s.purges ∨ (s.check r.permission r.uid).isSome = true
    | _ => True
  | _ => True

instance (s : State ν) : (op : Op ν) → Decidable (OpOk s op)
  | .cache t => by
    unfold OpOk
    dsimp only
    cases s.stages t <;> infer_instance
  | .checkPermission .. | .check _ | .query _ | .answer .. | .purgeCache => .isTrue trivial

/-- What was returned to a request comes from a query that was not started before a purge ahead of the request. -/
def Barrier (s : State ν) : Prop := ∀ x ∈ s.returned, ∀ a, x.answer = some a → x.began ≤ a.started

/-- Every cached answer was asked for behind the last purge. -/
def Fresh (s : State ν) : Prop := ∀ k a, s.mCache.find? k = some a → a.started = s.purges

/-- How the purges a thread has seen compare with `purges`. -/
def Timely (purges : ℕ) : Stage ν → Prop
  | .idle => True
  | .checking r | .missed r => r.uid ≠ 0 ∧ r.began ≤ purges
  | .querying r started => r.uid ≠ 0 ∧ r.began ≤ started ∧ started ≤ purges
  | .answered r a => r.uid ≠ 0 ∧ r.began ≤ a.started ∧ a.started ≤ purges

variable {stage : Stage ν} {permission : ν} {uid self : ℕ} {op : Op ν}

omit [LinearOrder ν] in
theorem Timely.mono {p p' : ℕ} (h : Timely p stage) (hp : p ≤ p') : Timely p' stage := by
  cases stage with
  | idle => trivial
  | checking | missed => exact ⟨h.1, h.2.trans hp⟩
  | querying | answered => exact ⟨h.1, h.2.1, h.2.2.trans hp⟩

structure Kept (s : State ν) : Prop where
  fresh : s.Fresh
  barrier : s.Barrier
  timely : ∀ t, Timely s.purges (s.stages t)

theorem kept_init : Kept ({} : State ν) where
  fresh k a h := by simp at h
  barrier x hx := by simp at hx
  timely _ := trivial

theorem Kept.goTo (h : Kept s) (hstage : Timely s.purges stage) : Kept (s.goTo t stage) := by
  constructor
  case fresh => exact h.fresh
  case barrier => exact h.barrier
  case timely =>
    intro t'
    simp only [State.goTo, update_apply]
    split_ifs
    · exact hstage
    · exact h.timely t'

theorem Kept.finish (h : Kept s) {x : Returned} (hx : ∀ a, x.answer = some a → x.began ≤ a.started) :
    Kept (s.finish t x) := by
  have hidle : Kept (s.goTo t .idle) := h.goTo trivial
  constructor
  case fresh => exact hidle.fresh
  case timely => exact hidle.timely
  case barrier =>
    intro y hy
    rcases List.mem_cons.mp hy with rfl | hy
    · exact hx
    · exact hidle.barrier y hy

theorem Kept.purge (h : Kept s) : Kept s.purge := by
  constructor
  case fresh =>
    intro k a hk
    simp [State.purge] at hk
  case barrier => exact h.barrier
  case timely =>
    intro t
    exact (h.timely t).mono (Nat.le_succ _)

/-- Nothing cached is replaced. -/
theorem find?_cache (s : State ν) (permission : ν) (uid : ℕ) (a : Answer) (k : ℕ ×ₗ ν) :
    (s.cache permission uid a).mCache.find? k =
      if k = toLex (uid, permission) ∧ (s.check permission uid).isSome = false then some a else s.mCache.find? k := by
  unfold State.cache
  cases hfound : (s.check permission uid).isSome
  · simp
  · simp

theorem Kept.cache (h : Kept s)
    (ha : a.started = s.purges ∨ (s.check permission uid).isSome = true) : Kept (s.cache permission uid a) := by
  constructor
  case fresh =>
    intro k b hk
    rw [find?_cache] at hk
    split_ifs at hk with hnew
    · cases Option.some.inj hk
      have hstarted : a.started = s.purges := by simpa [hnew.2] using ha
      exact hstarted
    · exact h.fresh k b hk
  case barrier => exact h.barrier
  case timely => exact h.timely

theorem Kept.step (h : Kept s) (hok : OpOk s op) (hs : step self s op = some s') : Kept s' := by
  cases op with
  | purgeCache =>
    cases hs
    exact h.purge
  | checkPermission =>
    simp only [State.step] at hs
    split at hs
    case h_2 => cases hs
    case h_1 hstage =>
      cases hs
      split_ifs with hroot
      · apply h.finish
        intro a ha
        cases ha
      · apply h.goTo
        exact ⟨fun h0 => hroot (.inl h0), le_refl _⟩
  | check t =>
    have ht := h.timely t
    simp only [State.step] at hs
    split at hs
    case h_2 => cases hs
    case h_1 r hstage =>
      rw [hstage] at ht
      cases hs
      split
      case h_2 => exact h.goTo ht
      case h_1 a hfound =>
        have hstarted : a.started = s.purges := h.fresh _ _ hfound
        apply h.finish
        intro b hb
        cases hb
        exact hstarted ▸ ht.2
  | query t =>
    have ht := h.timely t
    simp only [State.step] at hs
    split at hs
    case h_2 => cases hs
    case h_1 r hstage =>
      rw [hstage] at ht
      cases hs
      exact h.goTo ⟨ht.1, ht.2, le_refl _⟩
  | answer t =>
    have ht := h.timely t
    simp only [State.step] at hs
    split at hs
    case h_2 => cases hs
    case h_1 r started hstage =>
      rw [hstage] at ht
      cases hs
      exact h.goTo ht
  | cache t =>
    have ht := h.timely t
    simp only [State.step] at hs
    split at hs
    case h_2 => cases hs
    case h_1 r a hstage =>
      rw [hstage] at ht
      simp only [OpOk, hstage] at hok
      cases hs
      apply (h.cache hok).finish
      intro b hb
      cases hb
      exact ht.2.1

theorem kept_of_reachable (h : Reachable (step self) OpOk ({} : State ν) s) : Kept s :=
  h.invariant Kept kept_init fun _ _ _ hk hok hs => hk.step hok hs

/-- The same request again, from a thread that has nothing to do, returns what is cached. -/
theorem reachable_hit (self : ℕ) (hidle : s.stages t = .idle) (huid : uid ≠ 0)
    (hfound : s.check permission uid = some a) :
    ∃ s', Reachable (step self) OpOk s s' ∧ ⟨s.purges, a.granted, some a⟩ ∈ s'.returned := by
  let s₁ := s.goTo t (.checking ⟨permission, uid, s.purges⟩)
  have hstage : s₁.stages t = .checking ⟨permission, uid, s.purges⟩ := update_self ..
  have hbegin : step self s (.checkPermission t permission (self + 1) uid) = some s₁ := by
    simp [step, hidle, huid, s₁]
  have hfound₁ : s₁.check permission uid = some a := hfound
  have hcheck : step self s₁ (.check t) = some (s₁.finish t ⟨s.purges, a.granted, some a⟩) := by
    simp [step, hstage, hfound₁]
  refine ⟨s₁.finish t ⟨s.purges, a.granted, some a⟩, ?_, List.mem_cons_self⟩
  have hok : OpOk s (.checkPermission t permission (self + 1) uid) := trivial
  have hok₁ : OpOk s₁ (.check t) := trivial
  exact .next (.next .init hok hbegin) hok₁ hcheck

/-- An answer from before a purge that gets cached is returned to a later request. -/
theorem stale_returned (h : Kept s) (hok : ¬ OpOk s op) (hs : step self s op = some s') :
    ∃ s'', Reachable (step self) OpOk s' s'' ∧ ¬ s''.Barrier := by
  cases op with
  | purgeCache | checkPermission | check | query | answer => exact absurd trivial hok
  | cache t =>
    have ht := h.timely t
    simp only [State.step] at hs
    split at hs
    case h_2 => cases hs
    case h_1 r a hstage =>
      simp only [OpOk, hstage, not_or, Bool.not_eq_true] at hok
      rw [hstage] at ht
      have hstale : a.started < s.purges := Nat.lt_of_le_of_ne ht.2.2 hok.1
      cases hs
      have hidle : ((s.cache r.permission r.uid a).finish t ⟨r.began, a.granted, some a⟩).stages t = .idle :=
        update_self ..
      have hfound : ((s.cache r.permission r.uid a).finish t ⟨r.began, a.granted, some a⟩).check
          r.permission r.uid = some a := by
        have hcached := find?_cache s r.permission r.uid a (toLex (r.uid, r.permission))
        rw [if_pos ⟨rfl, hok.2⟩] at hcached
        exact hcached
      obtain ⟨s'', hreach, hmem⟩ := reachable_hit self hidle ht.1 hfound
      refine ⟨s'', hreach, fun hbarrier => ?_⟩
      have hle : s.purges ≤ a.started := hbarrier _ hmem a rfl
      omega

/-- Purges are barriers up to any point of a run, and go on to be exactly if no answer from before a purge is cached. -/
theorem purge_barrier {self : ℕ} (h : Reachable (step self) OpOk ({} : State ν) s) :
    s.Barrier ∧ ∀ op s', step self s op = some s' →
      (OpOk s op ↔ ∀ s'', Reachable (step self) OpOk s' s'' → s''.Barrier) := by
  have hkept := kept_of_reachable h
  constructor
  · exact hkept.barrier
  · intro op s' hs
    constructor
    · intro hok s'' hreach
      have hkept' : Kept s'' := hreach.invariant Kept (hkept.step hok hs) fun _ _ _ hk hok hs => hk.step hok hs
      exact hkept'.barrier
    · intro hall
      by_contra hok
      obtain ⟨s'', hreach, hstale⟩ := stale_returned hkept hok hs
      exact hstale (hall s'' hreach)

/-- An answer is asked for again behind a purge, and cached. -/
def asked : List (Op ℕ) :=
  [.checkPermission 0 7 5 1000, .check 0, .query 0, .answer 0 true, .cache 0, .purgeCache,
    .checkPermission 1 7 6 1000, .check 1, .query 1, .answer 1 false, .cache 1, .checkPermission 0 7 5 1000, .check 0]

theorem purge_barrier_asked : ∃ s : State ℕ, Reachable (step 1) OpOk {} s ∧
    s.returned = [⟨1, false, some ⟨false, 1⟩⟩, ⟨1, false, some ⟨false, 1⟩⟩, ⟨0, true, some ⟨true, 0⟩⟩] ∧ s.Barrier := by
  obtain ⟨s, hs, hreturned⟩ := exists_reachable (step 1) OpOk ({} : State ℕ) asked
    (fun s => s.returned = [⟨1, false, some ⟨false, 1⟩⟩, ⟨1, false, some ⟨false, 1⟩⟩, ⟨0, true, some ⟨true, 0⟩⟩])
    (by decide +kernel)
  exact ⟨s, hs, hreturned, (purge_barrier hs).1⟩

/-- The cache is purged while thread 0 waits for its answer: thread 1 asks behind the purge and gets the old one. -/
theorem not_purge_barrier : ∃ s : State ℕ, Reachable (step 1) Free {} s ∧
    ⟨1, true, some ⟨true, 0⟩⟩ ∈ s.returned ∧ ¬ s.Barrier := by
  obtain ⟨s, hs, hmem⟩ := exists_reachable (step 1) Free ({} : State ℕ)
    [.checkPermission 0 7 5 1000, .check 0, .query 0, .purgeCache, .answer 0 true, .cache 0,
      .checkPermission 1 7 6 1000, .check 1]
    (fun s => ⟨1, true, some ⟨true, 0⟩⟩ ∈ s.returned) (by decide +kernel)
  refine ⟨s, hs, hmem, fun hbarrier => ?_⟩
  have hle : 1 ≤ 0 := hbarrier _ hmem _ rfl
  omega

end State

end Binder.PermissionCache
