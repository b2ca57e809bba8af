import Mathlib.Algebra.Group.Nat.Defs
import Mathlib.Data.Int.Notation
import Mathlib.Data.List.Basic
import Mathlib.Data.List.TakeWhile

/-! Client pids of a binder, read from two of the driver's debug files. -/
namespace Binder.BinderDebug
open List

abbrev Line := List Char

/-- A piece of a regular expression that is matched from the start of a line. -/
inductive Item
  | char (c : Char)
  /-- At least `min` characters of a class, as many as the rest allows. -/
  | rep (cls : Char → Bool) (min : ℕ) (captured : Bool)
  | eol

/-- The groups of the match that backtracking finds first. -/
def regexSearch : List Item → Line → Option (List Line)
  | [], _ => some []
  | .char c :: rest, s => if s.head? = some c then regexSearch rest s.tail else none
  | .eol :: rest, s => if s = [] then regexSearch rest s else none
  | .rep cls min captured :: rest, s =>
    (List.range ((s.takeWhile cls).length + 1)).reverse.findSome? fun k =>
      if k < min then none
      else (regexSearch rest (s.drop k)).map fun groups => if captured then s.take k :: groups else groups

def isSpace (c : Char) : Bool := c = ' ' ∨ 9 ≤ c.toNat ∧ c.toNat ≤ 13

def text (s : String) : List Item := s.toList.map .char
def spaces : Item := .rep isSpace 1 false
def number : Item := .rep Char.isDigit 1 true
def anything : Item := .rep (fun c => c ≠ '\n' ∧ c ≠ '\r') 0 false

def kContextLine : List Item :=
  text "context " ++ [.rep (fun c => c.isAlphanum || c = '_') 1 true, .eol]

def kNodeNumber : List Item :=
  [spaces] ++ text "ref " ++ [.rep Char.isDigit 1 false] ++ text ":" ++ [spaces] ++ text "desc" ++
    [spaces, number, spaces] ++ text "node" ++ [spaces, number, anything]

def kClients : List Item :=
  [spaces] ++ text "node" ++ [spaces, number, anything] ++ text "proc" ++
    [spaces, .rep (fun c => c.isDigit || c = '+' || isSpace c || c = '*') 0 true]

/-- `ParseInt` and `Split` at blanks, which are not in this repository. A text that is a number has that number, and
no other, between its white space. -/
structure Libbase where
  parseInt : Line → Option ℤ
  split : Line → List Line
  split_eq : ∀ s, split s = s.splitOn ' '
  parseInt_piece : ∀ s n, parseInt s = some n → (s.splitOnP isSpace).filterMap parseInt = [n]

def scanBinderContext {σ : Type} (file : Except ℤ (List Line)) (contextName : Line)
    (eachLine : σ → Line → σ) (s : σ) : Except ℤ σ := do
  let lines ← file
  return (lines.foldl (fun (isDesiredContext, s) line =>
    match regexSearch kContextLine line with
    | some groups => (decide (groups = [contextName]), s)
    | none => (isDesiredContext, if isDesiredContext then eachLine s line else s)) (false, s)).2

section

variable (L : Libbase)

/-- The node that a line gives for the handle. -/
def nodeNumber (handle : ℤ) (line : Line) : Option ℤ :=
  match regexSearch kNodeNumber line with
  | some [descString, nodeString] =>
    if L.parseInt descString = some handle then L.parseInt nodeString else none
  | _ => none

/-- What a line for the node has after `proc`. -/
def clients (node : ℤ) (line : Line) : Option Line :=
  match regexSearch kClients line with
  | some [nodeString, clients] => if L.parseInt nodeString = some node then some clients else none
  | _ => none

def pushPids (pids : List ℤ) : List Line → List ℤ
  | [] => pids
  | pidStr :: rest =>
    match L.parseInt pidStr with
    | none => pids
    | some pid => pushPids (pids ++ [pid]) rest

def addClients (node : ℤ) (pids : List ℤ) (line : Line) : List ℤ :=
  match clients L node line with
  | none => pids
  | some clients => pushPids L pids (L.split clients)

/-- `node` is what the uninitialised variable holds. -/
def getBinderClientPids (contextName : Line) (pidFile serviceFile : Except ℤ (List Line))
    (handle node : ℤ) (pids : List ℤ) : Except ℤ (List ℤ) := do
  let node ← scanBinderContext pidFile contextName (fun node line => (nodeNumber L handle line).getD node) node
  scanBinderContext serviceFile contextName (addClients L node) pids

/-- The lines inside the context. -/
def contextLines (contextName : Line) : List Line → Bool → List Line
  | [], _ => []
  | line :: lines, inside =>
    match regexSearch kContextLine line with
    | some groups => contextLines contextName lines (groups = [contextName])
    | none => (if inside then [line] else []) ++ contextLines contextName lines inside

/-- The last reference counts. -/
def nodeOf (handle : ℤ) (lines : List Line) : Option ℤ := (lines.filterMap (nodeNumber L handle)).getLast?

/-- The numbers between white space. -/
def listed (clients : Line) : List ℤ := (clients.splitOnP isSpace).filterMap L.parseInt

def clientPids (handle : ℤ) (pidLines serviceLines : List Line) : List ℤ :=
  match nodeOf L handle pidLines with
  | none => []
  | some node => (serviceLines.filterMap (clients L node)).flatMap (listed L)

/-- The pieces between blanks, up to the first that is not a number. -/
def numbers (clients : Line) : List Line := (clients.splitOn ' ').takeWhile fun s => (L.parseInt s).isSome

/-- The pieces from the first that is not a number on. -/
def behind (clients : Line) : List Line := (clients.splitOn ' ').dropWhile fun s => (L.parseInt s).isSome

variable {L}

theorem scanBinderContext_ok {σ : Type} (lines : List Line) (contextName : Line)
    (eachLine : σ → Line → σ) (s : σ) :
    scanBinderContext (.ok lines) contextName eachLine s =
      .ok ((contextLines contextName lines false).foldl eachLine s) := by
  apply congrArg Except.ok
  generalize false = inside
  induction lines generalizing inside s with
  | nil => rfl
  | cons line lines ih =>
    rw [foldl_cons, contextLines]
    cases regexSearch kContextLine line with
    | some => exact ih ..
    | none => cases inside <;> exact ih ..

theorem foldl_nodeNumber (handle node : ℤ) (lines : List Line) :
    lines.foldl (fun node line => (nodeNumber L handle line).getD node) node = (nodeOf L handle lines).getD node := by
  induction lines generalizing node with
  | nil => rfl
  | cons line lines ih =>
    rw [foldl_cons, ih, nodeOf, nodeOf]
    cases h : nodeNumber L handle line <;> simp [h, List.getLast?_cons]

theorem isSome_of_mem_numbers {s c : Line} (h : s ∈ numbers L c) : (L.parseInt s).isSome = true :=
  mem_takeWhile_imp (p := fun s => (L.parseInt s).isSome) h

theorem pushPids_eq (pids : List ℤ) (pieces : List Line) :
    pushPids L pids pieces = pids ++ (pieces.takeWhile fun s => (L.parseInt s).isSome).filterMap L.parseInt := by
  induction pieces generalizing pids with
  | nil => simp [pushPids]
  | cons s rest ih =>
    rw [pushPids]
    cases hpid : L.parseInt s with
    | none => simp [hpid]
    | some pid => simp [hpid, ih]

theorem foldl_addClients (node : ℤ) (pids : List ℤ) (lines : List Line) : lines.foldl (addClients L node) pids =
    pids ++ (lines.filterMap (clients L node)).flatMap fun c => (numbers L c).filterMap L.parseInt := by
  induction lines generalizing pids with
  | nil => simp
  | cons line lines ih =>
    rw [foldl_cons, ih, addClients]
    cases hc : clients L node line with
    | none => simp [hc]
    | some c => simp [hc, pushPids_eq, L.split_eq, numbers]

theorem getBinderClientPids_ok (contextName : Line) (pidLines serviceLines : List Line) (handle node : ℤ)
    (pids : List ℤ) : getBinderClientPids L contextName (.ok pidLines) (.ok serviceLines) handle node pids =
      .ok (pids ++ ((contextLines contextName serviceLines false).filterMap (clients L
        ((nodeOf L handle (contextLines contextName pidLines false)).getD node))).flatMap fun c =>
          (numbers L c).filterMap L.parseInt) := by
  rw [getBinderClientPids, scanBinderContext_ok, foldl_nodeNumber]
  exact (scanBinderContext_ok ..).trans (congrArg Except.ok (foldl_addClients ..))

/-- Blanks are white space. -/
theorem splitOnP_isSpace (s : Line) : s.splitOnP isSpace = (s.splitOn ' ').flatMap (splitOnP isSpace) := by
  rw [splitOn_eq_splitOnP]
  induction s with
  | nil => rfl
  | cons c rest ih =>
    rw [splitOnP_cons_eq_if_modifyHead, splitOnP_cons_eq_if_modifyHead, ih]
    by_cases hblank : c = ' '
    · subst hblank
      rfl
    · have hne : ¬ (c == ' ') = true := by simpa using hblank
      obtain ⟨h, t, heq⟩ := exists_cons_of_ne_nil (splitOnP_ne_nil (· == ' ') rest)
      obtain ⟨h', t', heq'⟩ := exists_cons_of_ne_nil (splitOnP_ne_nil isSpace h)
      rw [if_neg hne, heq, modifyHead_cons, flatMap_cons, flatMap_cons, splitOnP_cons_eq_if_modifyHead, heq']
      split_ifs <;> rfl

theorem listed_eq (clients : Line) :
    listed L clients = (numbers L clients).filterMap L.parseInt ++ (behind L clients).flatMap (listed L) := by
  have hnumbers : (numbers L clients).flatMap (listed L) = (numbers L clients).filterMap L.parseInt := by
    rw [filterMap_eq_flatMap_toList]
    refine flatMap_congr fun s hs => ?_
    obtain ⟨n, hn⟩ := Option.isSome_iff_exists.mp (isSome_of_mem_numbers hs)
    rw [hn]
    exact L.parseInt_piece s n hn
  rw [← hnumbers, ← flatMap_append, numbers, behind, takeWhile_append_dropWhile, listed, splitOnP_isSpace,
    filterMap_flatMap]
  rfl

/-- What comes on top in each piece shows in the length. -/
theorem flatMap_eq_iff {α β : Type} {f g : α → List β} (as : List α) :
    as.flatMap f = as.flatMap (fun a => f a ++ g a) ↔ ∀ a ∈ as, g a = [] := by
  have hle : (as.flatMap f).length + (as.flatMap g).length = (as.flatMap fun a => f a ++ g a).length := by
    induction as with
    | nil => rfl
    | cons a as ih =>
      simp only [flatMap_cons, length_append]
      omega
  constructor
  · intro h
    rw [h, Nat.add_eq_left, length_eq_zero_iff] at hle
    exact flatMap_eq_nil_iff.mp hle
  · intro h
    exact flatMap_congr fun a ha => by rw [h a ha, append_nil]

/-- Exactly the listed pids are appended if and only if, on each line for the node, no number is listed behind the first
piece between blanks that is not one; and, without a reference, if no line for the value that the variable happens to
have begins with a number. -/
theorem getBinderClientPids_exact (L : Libbase) (contextName : Line) (pidLines serviceLines : List Line)
    (handle node₀ : ℤ) (pids : List ℤ) :
    getBinderClientPids L contextName (.ok pidLines) (.ok serviceLines) handle node₀ pids =
        .ok (pids ++ clientPids L handle (contextLines contextName pidLines false)
          (contextLines contextName serviceLines false)) ↔
      (∀ node, nodeOf L handle (contextLines contextName pidLines false) = some node →
        ∀ line ∈ contextLines contextName serviceLines false, ∀ c ∈ clients L node line,
          (behind L c).flatMap (listed L) = []) ∧
      (nodeOf L handle (contextLines contextName pidLines false) = none →
        ∀ line ∈ contextLines contextName serviceLines false, ∀ c ∈ clients L node₀ line, numbers L c = []) := by
  have hlisted : listed L = fun c => (numbers L c).filterMap L.parseInt ++ (behind L c).flatMap (listed L) :=
    funext listed_eq
  have hnumbers (c : Line) : (numbers L c).filterMap L.parseInt = [] ↔ numbers L c = [] := by
    constructor
    · intro h
      refine eq_nil_iff_forall_not_mem.mpr fun s hs => ?_
      have hparses := isSome_of_mem_numbers hs
      simp [filterMap_eq_nil_iff.mp h s hs] at hparses
    · intro h
      rw [h]
      rfl
  rw [getBinderClientPids_ok, Except.ok.injEq, append_cancel_left_eq, clientPids]
  cases nodeOf L handle (contextLines contextName pidLines false) with
  | some node =>
    dsimp only [Option.getD_some]
    rw [hlisted, flatMap_eq_iff, ← hlisted, forall_mem_filterMap]
    simp
  | none =>
    dsimp only [Option.getD_none]
    rw [flatMap_eq_nil_iff, forall_mem_filterMap]
    simp [hnumbers]

end

/-- Numbers without a sign and without white space. -/
def parseDecimal (s : Line) : Option ℤ :=
  let n : ℕ := s.foldl (fun n c => 10 * n + (c.toNat - 48)) 0
  if s ≠ [] ∧ s.all Char.isDigit ∧ n < 2 ^ 31 then some n else none

theorem isSpace_of_isDigit {c : Char} (h : c.isDigit = true) : isSpace c = false := by
  have hlow : (48 : UInt32) ≤ c.val := of_decide_eq_true (Bool.and_eq_true_iff.mp h).1
  have hlow : 48 ≤ c.toNat := UInt32.le_iff_toNat_le.mp hlow
  have hblank : c ≠ ' ' := by
    rintro rfl
    exact absurd hlow (by decide)
  simp [isSpace, hblank]
  omega

def decimal : Libbase where
  parseInt := parseDecimal
  split s := s.splitOn ' '
  split_eq _ := rfl
  parseInt_piece s n h := by
    have hall : s.all Char.isDigit = true := by
      unfold parseDecimal at h
      simp only [Option.ite_none_right_eq_some] at h
      exact h.1.2.1
    rw [splitOnP_eq_singleton fun c hc => isSpace_of_isDigit (all_eq_true.mp hall c hc)]
    simp [h]

def sample (lines : List String) : List Line := ("context binder" :: lines).map String.toList

theorem getBinderClientPids_exact_two :
    getBinderClientPids decimal "binder".toList (.ok (sample ["  ref 7: desc 3 node 12 s 1"]))
      (.ok (sample [" node 12: u0 proc 41 7"])) 3 0 [] = .ok [41, 7] := by
  rw [(getBinderClientPids_exact ..).mpr]
  · decide +kernel
  · have hnode : nodeOf decimal 3 (contextLines "binder".toList (sample ["  ref 7: desc 3 node 12 s 1"]) false) =
        some 12 := by decide +kernel
    rw [hnode]
    refine ⟨fun node h => ?_, nofun⟩
    obtain rfl := Option.some.inj h
    decide +kernel

theorem getBinderClientPids_inexact :
    getBinderClientPids decimal "binder".toList (.ok (sample ["  ref 7: desc 3 node 12 s 1"]))
        (.ok (sample [" node 12: u0 proc 41  7"])) 3 0 [] = .ok [41] ∧
      listed decimal "41  7".toList = [41, 7] ∧
      getBinderClientPids decimal "binder".toList (.ok (sample []))
        (.ok (sample [" node 12: u0 proc 41 7"])) 3 12 [] = .ok [41, 7] := by
  decide +kernel

end Binder.BinderDebug
