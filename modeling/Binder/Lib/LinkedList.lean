import Mathlib.Data.List.Nodup
import Mathlib.Data.List.Perm.Subperm

/-! Doubly linked lists whose nodes live at addresses. An operation gives `none` when it reads
an address without a node. -/
namespace Binder.Lib
open List

structure Node (α : Type) where
  val : α
  prev : Option ℕ
  next : Option ℕ

/-- `new` has not used the address `fresh` or any above it. -/
structure LinkedList (α : Type) where
  nodes : ℕ → Option (Node α)
  fresh : ℕ
  mFirst : Option ℕ
  mLast : Option ℕ

namespace LinkedList

variable {α β : Type} {l l' : LinkedList α}

def empty : LinkedList α := ⟨fun _ => none, 0, none, none⟩

def set (l : LinkedList α) (a : ℕ) (n : Option (Node α)) : LinkedList α :=
  { l with nodes := Function.update l.nodes a n }

def modify (l : LinkedList α) (a : ℕ) (f : Node α → Node α) : Option (LinkedList α) :=
  (l.nodes a).map fun n => l.set a (some (f n))

def setVal (l : LinkedList α) (a : ℕ) (v : α) : Option (LinkedList α) :=
  l.modify a fun n => { n with val := v }

/-- A node that is not linked yet, at the address `l.fresh`. -/
def new (l : LinkedList α) (v : α) : LinkedList α :=
  { l.set l.fresh (some ⟨v, none, none⟩) with fresh := l.fresh + 1 }

def delete (l : LinkedList α) (a : ℕ) : LinkedList α := l.set a none

/-- The link that leads forward to the node after `prev`. -/
def setForward (l : LinkedList α) (prev target : Option ℕ) : Option (LinkedList α) :=
  match prev with
  | none => some { l with mFirst := target }
  | some a => l.modify a fun n => { n with next := target }

/-- The link that leads back to the node before `next`. -/
def setBackward (l : LinkedList α) (next target : Option ℕ) : Option (LinkedList α) :=
  match next with
  | none => some { l with mLast := target }
  | some a => l.modify a fun n => { n with prev := target }

def insertAfter (l : LinkedList α) (node newNode : ℕ) : Option (LinkedList α) := do
  let n ← l.nodes node
  let l ← l.modify newNode fun m => { m with prev := some node, next := n.next }
  let l ← l.setBackward n.next (some newNode)
  l.modify node fun m => { m with next := some newNode }

def insertBefore (l : LinkedList α) (node newNode : ℕ) : Option (LinkedList α) := do
  let n ← l.nodes node
  let l ← l.modify newNode fun m => { m with prev := n.prev, next := some node }
  let l ← l.setForward n.prev (some newNode)
  l.modify node fun m => { m with prev := some newNode }

def insertHead (l : LinkedList α) (newNode : ℕ) : Option (LinkedList α) :=
  match l.mFirst with
  | none => do
    let l ← l.modify newNode fun m => { m with prev := none, next := none }
    some { l with mFirst := some newNode, mLast := some newNode }
  | some first => do
    let l ← l.modify newNode fun m => { m with prev := none, next := some first }
    let l ← l.modify first fun m => { m with prev := some newNode }
    some { l with mFirst := some newNode }

def remove (l : LinkedList α) (node : ℕ) : Option (LinkedList α) := do
  let n ← l.nodes node
  let l ← l.setForward n.prev n.next
  l.setBackward n.next n.prev

/-- The loop `while (cur) { body; cur = cur->next; }`, where the body may break. The fuel bounds
the number of iterations. -/
def scan (l : LinkedList α) (body : β → ℕ → α → β × Bool) : ℕ → Option ℕ → β → Option β
  | _, none, acc => some acc
  | 0, some _, _ => none
  | fuel + 1, some cur, acc => do
    let n ← l.nodes cur
    let next := body acc cur n.val
    if next.2 then some next.1 else l.scan body fuel n.next next.1

/-! ### What a list represents -/

def startOf (es : List (ℕ × α)) : Option ℕ := es.head?.map Prod.fst
def endOf (es : List (ℕ × α)) : Option ℕ := es.getLast?.map Prod.fst

/-- The nodes of `es` are linked in this order, between the nodes `p` and `n`. -/
def Segment (nodes : ℕ → Option (Node α)) : Option ℕ → List (ℕ × α) → Option ℕ → Prop
  | _, [], _ => True
  | p, e :: es, n => nodes e.1 = some ⟨e.2, p, (startOf es).or n⟩ ∧ Segment nodes (some e.1) es n

/-- The list holds the given values at the given addresses. -/
structure Represents (l : LinkedList α) (es : List (ℕ × α)) : Prop where
  segment : Segment l.nodes none es none
  nodup : (es.map Prod.fst).Nodup
  first : l.mFirst = startOf es
  last : l.mLast = endOf es
  bound : ∀ a, l.nodes a ≠ none → a < l.fresh

section Segment

variable {nodes nodes' : ℕ → Option (Node α)} {p n : Option ℕ} {es xs ys : List (ℕ × α)}

theorem segment_append : Segment nodes p (xs ++ ys) n ↔
    Segment nodes p xs ((startOf ys).or n) ∧ Segment nodes ((endOf xs).or p) ys n := by
  induction xs generalizing p with
  | nil => simp [Segment, endOf]
  | cons x xs ih =>
    have hstart : (startOf (xs ++ ys)).or n = (startOf xs).or ((startOf ys).or n) := by
      cases xs <;> simp [startOf]
    have hend : (endOf (x :: xs)).or p = (endOf xs).or (some x.1) := by
      cases xs with
      | nil => simp [endOf]
      | cons => simp [endOf, List.getLast?_cons]
    simp only [cons_append, Segment, ih, hstart, hend, and_assoc]

theorem Segment.congr (h : Segment nodes p es n) (heq : ∀ e ∈ es, nodes' e.1 = nodes e.1) :
    Segment nodes' p es n := by
  induction es generalizing p with
  | nil => trivial
  | cons e es ih =>
    obtain ⟨hnode, hrest⟩ := h
    refine ⟨by rw [heq e mem_cons_self, hnode], ih hrest ?_⟩
    exact fun e' he' => heq e' (mem_cons_of_mem _ he')

theorem Segment.node {e : ℕ × α} (h : Segment nodes p (xs ++ e :: ys) n) :
    nodes e.1 = some ⟨e.2, (endOf xs).or p, (startOf ys).or n⟩ :=
  (segment_append.mp h).2.1

end Segment

section Operations

variable {xs ys : List (ℕ × α)} {e : ℕ × α} {a b : ℕ} {p n : Option ℕ} {v : α}

theorem modify_eq {m : Node α} (h : l.nodes a = some m) (f : Node α → Node α) :
    l.modify a f = some (l.set a (some (f m))) := by
  simp [modify, h]

@[simp] theorem set_nodes_self (m : Option (Node α)) : (l.set a m).nodes a = m := by
  simp [set]

@[simp] theorem set_mFirst (m : Option (Node α)) : (l.set a m).mFirst = l.mFirst := rfl

@[simp] theorem set_mLast (m : Option (Node α)) : (l.set a m).mLast = l.mLast := rfl

theorem set_nodes_of_ne (h : b ≠ a) (m : Option (Node α)) : (l.set a m).nodes b = l.nodes b := by
  simp [set, h]

theorem startOf_append : startOf (xs ++ ys) = (startOf xs).or (startOf ys) := by
  cases xs <;> simp [startOf]

theorem endOf_append : endOf (xs ++ ys) = (endOf ys).or (endOf xs) := by
  unfold endOf
  rw [List.getLast?_append]
  cases ys.getLast? <;> rfl

theorem endOf_cons : endOf (e :: ys) = (endOf ys).or (some e.1) := by
  rw [← singleton_append, endOf_append]
  rfl

theorem mem_addresses (h : e ∈ xs) : e.1 ∈ xs.map Prod.fst :=
  mem_map_of_mem h

/-- Nodes outside `as` are the same, and none has come or gone. -/
structure Rewired (l l' : LinkedList α) (as : List ℕ) : Prop where
  fresh : l'.fresh = l.fresh
  nodes : ∀ a ∉ as, l'.nodes a = l.nodes a
  exist : ∀ a, l'.nodes a ≠ none → l.nodes a ≠ none

theorem rewired_set {m m' : Node α} {as : List ℕ} (h : l.nodes a = some m) (ha : a ∈ as) :
    Rewired l (l.set a (some m')) as where
  fresh := rfl
  nodes c hc := by
    refine set_nodes_of_ne ?_ _
    rintro rfl
    exact hc ha
  exist c := by
    by_cases hc : c = a
    · rw [hc, h]
      simp
    · rw [set_nodes_of_ne hc]
      exact id

/-- The list up to a place before which `xs` stands, with a link to `n` there. -/
structure Left (l : LinkedList α) (xs : List (ℕ × α)) (n : Option ℕ) : Prop where
  first : l.mFirst = (startOf xs).or n
  segment : Segment l.nodes none xs n

/-- The list from a place after which `ys` stands, with a link back to `p` there. -/
structure Right (l : LinkedList α) (p : Option ℕ) (ys : List (ℕ × α)) : Prop where
  last : l.mLast = (endOf ys).or p
  segment : Segment l.nodes p ys none

theorem represents_append : l.Represents (xs ++ ys) ↔
    Left l xs (startOf ys) ∧ Right l (endOf xs) ys ∧ ((xs ++ ys).map Prod.fst).Nodup ∧
      ∀ a, l.nodes a ≠ none → a < l.fresh := by
  constructor
  · intro h
    obtain ⟨hxs, hys⟩ := segment_append.mp h.segment
    rw [Option.or_none] at hxs hys
    exact ⟨⟨h.first.trans startOf_append, hxs⟩, ⟨h.last.trans endOf_append, hys⟩, h.nodup, h.bound⟩
  · rintro ⟨hleft, hright, hnodup, hbound⟩
    refine ⟨segment_append.mpr ?_, hnodup, hleft.first.trans startOf_append.symm,
      hright.last.trans endOf_append.symm, hbound⟩
    rw [Option.or_none, Option.or_none]
    exact ⟨hleft.segment, hright.segment⟩

theorem Left.congr (h : Left l xs n) (hf : l'.mFirst = l.mFirst)
    (heq : ∀ e ∈ xs, l'.nodes e.1 = l.nodes e.1) : Left l' xs n :=
  ⟨hf.trans h.first, h.segment.congr heq⟩

theorem Right.congr (h : Right l p ys) (hl : l'.mLast = l.mLast)
    (heq : ∀ e ∈ ys, l'.nodes e.1 = l.nodes e.1) : Right l' p ys :=
  ⟨hl.trans h.last, h.segment.congr heq⟩

theorem Left.setForward (h : Left l xs n) (hnodup : (xs.map Prod.fst).Nodup) (t : Option ℕ) :
    ∃ l', l.setForward (endOf xs) t = some l' ∧ Left l' xs t ∧ l'.mLast = l.mLast ∧
      Rewired l l' (xs.map Prod.fst) := by
  rcases eq_nil_or_concat xs with rfl | ⟨xs, e, rfl⟩
  · exact ⟨{ l with mFirst := t }, rfl, ⟨rfl, trivial⟩, rfl, rfl, fun _ _ => rfl, fun _ => id⟩
  · rw [concat_eq_append] at h hnodup ⊢
    obtain ⟨hxs, hnode, -⟩ := segment_append.mp h.segment
    have hend : endOf (xs ++ [e]) = some e.1 := by simp [endOf]
    have hset : l.setForward (endOf (xs ++ [e])) t = some (l.set e.1 (some ⟨e.2, (endOf xs).or none, t⟩)) := by
      rw [hend]
      exact modify_eq hnode _
    have hne : ∀ x ∈ xs, x.1 ≠ e.1 := by
      intro x hx heq
      rw [map_append] at hnodup
      exact disjoint_of_nodup_append hnodup (mem_addresses hx) (by simp [heq])
    refine ⟨_, hset, ⟨?_, ?_⟩, rfl, rewired_set hnode (by simp)⟩
    · have hfirst := h.first
      simpa [startOf, Option.or_assoc] using hfirst
    · refine segment_append.mpr ⟨?_, ?_, trivial⟩
      · exact hxs.congr fun x hx => set_nodes_of_ne (hne x hx) _
      · simp [startOf]

theorem Right.setBackward (h : Right l p ys) (hnodup : (ys.map Prod.fst).Nodup) (t : Option ℕ) :
    ∃ l', l.setBackward (startOf ys) t = some l' ∧ Right l' t ys ∧ l'.mFirst = l.mFirst ∧
      Rewired l l' (ys.map Prod.fst) := by
  cases ys with
  | nil => exact ⟨{ l with mLast := t }, rfl, ⟨rfl, trivial⟩, rfl, rfl, fun _ _ => rfl, fun _ => id⟩
  | cons e ys =>
    obtain ⟨hnode, hys⟩ := h.segment
    have hset : l.setBackward (startOf (e :: ys)) t = some (l.set e.1 (some ⟨e.2, t, (startOf ys).or none⟩)) :=
      modify_eq hnode _
    have hne : ∀ y ∈ ys, y.1 ≠ e.1 := by
      intro y hy heq
      exact (nodup_cons.mp hnodup).1 (heq ▸ mem_addresses hy)
    refine ⟨_, hset, ⟨?_, ?_⟩, rfl, rewired_set hnode (by simp)⟩
    · have hlast := h.last
      rw [endOf_cons] at hlast ⊢
      simpa [Option.or_assoc] using hlast
    · exact ⟨set_nodes_self _, hys.congr fun y hy => set_nodes_of_ne (hne y hy) _⟩

theorem not_mem_left (h : ((xs ++ ys).map Prod.fst).Nodup) {y : ℕ × α} (hy : y ∈ ys) : y.1 ∉ xs.map Prod.fst := by
  rw [map_append] at h
  exact fun hx => disjoint_of_nodup_append h hx (mem_addresses hy)

theorem not_mem_right (h : ((xs ++ ys).map Prod.fst).Nodup) {x : ℕ × α} (hx : x ∈ xs) : x.1 ∉ ys.map Prod.fst := by
  rw [map_append] at h
  exact fun hy => disjoint_of_nodup_append h (mem_addresses hx) hy

/-- Both links at a place are redirected, the forward one first. -/
theorem relink (hl : Left l xs n) (hr : Right l p ys) (h : ((xs ++ ys).map Prod.fst).Nodup) (t u : Option ℕ) :
    ∃ l₁ l₂, l.setForward (endOf xs) t = some l₁ ∧ l₁.setBackward (startOf ys) u = some l₂ ∧
      Left l₂ xs t ∧ Right l₂ u ys ∧ Rewired l l₂ ((xs ++ ys).map Prod.fst) := by
  have hxs : (xs.map Prod.fst).Nodup := (map_append ▸ h).of_append_left
  have hys : (ys.map Prod.fst).Nodup := (map_append ▸ h).of_append_right
  obtain ⟨l₁, h₁, hl₁, hlast, hw₁⟩ := hl.setForward hxs t
  have hr₁ : Right l₁ p ys := hr.congr hlast fun y hy => hw₁.nodes y.1 (not_mem_left h hy)
  obtain ⟨l₂, h₂, hr₂, hfirst, hw₂⟩ := hr₁.setBackward hys u
  have hl₂ : Left l₂ xs t := hl₁.congr hfirst fun x hx => hw₂.nodes x.1 (not_mem_right h hx)
  refine ⟨l₁, l₂, h₁, h₂, hl₂, hr₂, hw₂.fresh.trans hw₁.fresh, ?_, ?_⟩
  · intro a ha
    rw [map_append, mem_append, not_or] at ha
    rw [hw₂.nodes a ha.2, hw₁.nodes a ha.1]
  · exact fun a ha => hw₁.exist a (hw₂.exist a ha)

/-- Both links at a place are redirected, the backward one first. -/
theorem relink_backward (hl : Left l xs n) (hr : Right l p ys)
    (h : ((xs ++ ys).map Prod.fst).Nodup) (t u : Option ℕ) :
    ∃ l₁ l₂, l.setBackward (startOf ys) u = some l₁ ∧ l₁.setForward (endOf xs) t = some l₂ ∧
      Left l₂ xs t ∧ Right l₂ u ys ∧ Rewired l l₂ ((xs ++ ys).map Prod.fst) := by
  have hxs : (xs.map Prod.fst).Nodup := (map_append ▸ h).of_append_left
  have hys : (ys.map Prod.fst).Nodup := (map_append ▸ h).of_append_right
  obtain ⟨l₁, h₁, hr₁, hfirst, hw₁⟩ := hr.setBackward hys u
  have hl₁ : Left l₁ xs n := hl.congr hfirst fun x hx => hw₁.nodes x.1 (not_mem_right h hx)
  obtain ⟨l₂, h₂, hl₂, hlast, hw₂⟩ := hl₁.setForward hxs t
  have hr₂ : Right l₂ u ys := hr₁.congr hlast fun y hy => hw₂.nodes y.1 (not_mem_left h hy)
  refine ⟨l₁, l₂, h₁, h₂, hl₂, hr₂, hw₂.fresh.trans hw₁.fresh, ?_, ?_⟩
  · intro a ha
    rw [map_append, mem_append, not_or] at ha
    rw [hw₂.nodes a ha.1, hw₁.nodes a ha.2]
  · exact fun a ha => hw₁.exist a (hw₂.exist a ha)

/-- A node that is in the heap but not in the list. -/
structure Unlinked (l : LinkedList α) (es : List (ℕ × α)) (b : ℕ) (v : α) : Prop where
  node : ∃ m, l.nodes b = some m ∧ m.val = v
  notMem : b ∉ es.map Prod.fst

/-- The new node is prepared and the list still ends before and starts after its place. -/
theorem Represents.prepare (h : l.Represents (xs ++ ys)) (hb : l.Unlinked (xs ++ ys) b v) :
    let l₀ := l.set b (some ⟨v, endOf xs, startOf ys⟩)
    Left l₀ xs (startOf ys) ∧ Right l₀ (endOf xs) ys ∧
      (∀ p n, l.modify b (fun m => { m with prev := p, next := n }) =
        some (l.set b (some ⟨v, p, n⟩))) ∧ ∀ a, l₀.nodes a ≠ none → a < l.fresh := by
  obtain ⟨m, hm, rfl⟩ := hb.node
  obtain ⟨hleft, hright, -, hbound⟩ := represents_append.mp h
  have hne : ∀ e ∈ xs ++ ys, e.1 ≠ b := by
    rintro e he rfl
    exact hb.notMem (mem_addresses he)
  refine ⟨hleft.congr rfl ?_, hright.congr rfl ?_, fun p n => modify_eq hm _, ?_⟩
  · exact fun e he => set_nodes_of_ne (hne e (mem_append_left _ he)) _
  · exact fun e he => set_nodes_of_ne (hne e (mem_append_right _ he)) _
  · intro a ha
    by_cases hab : a = b
    · exact hab ▸ hbound b (by simp [hm])
    · exact hbound a (by rwa [set_nodes_of_ne hab] at ha)

theorem represents_insert (hl : Left l xs (some b)) (hr : Right l (some b) ys)
    (hnode : l.nodes b = some ⟨v, endOf xs, startOf ys⟩)
    (hnodup : ((xs ++ ys).map Prod.fst).Nodup) (hb : b ∉ (xs ++ ys).map Prod.fst)
    (hbound : ∀ a, l.nodes a ≠ none → a < l.fresh) : l.Represents (xs ++ (b, v) :: ys) := by
  refine represents_append.mpr ⟨hl, ⟨?_, ?_, hr.segment⟩, ?_, hbound⟩
  · rw [hr.last, endOf_cons, Option.or_assoc]
    rfl
  · rw [hnode, Option.or_none]
  · have hperm : (xs ++ (b, v) :: ys).Perm ((b, v) :: (xs ++ ys)) := perm_middle
    rw [(hperm.map Prod.fst).nodup_iff, map_cons, nodup_cons]
    exact ⟨hb, hnodup⟩

theorem Represents.insertBefore (h : l.Represents (xs ++ e :: ys)) (hb : l.Unlinked (xs ++ e :: ys) b v) :
    ∃ l', l.insertBefore e.1 b = some l' ∧ l'.Represents (xs ++ (b, v) :: e :: ys) := by
  obtain ⟨hl, hr, hmodify, hbound⟩ := h.prepare hb
  obtain ⟨l₁, l₂, h₁, h₂, hl₂, hr₂, hw⟩ := relink hl hr h.nodup (some b) (some b)
  refine ⟨l₂, ?_, ?_⟩
  · have hnode := h.segment.node
    rw [Option.or_none, Option.or_none] at hnode
    unfold LinkedList.insertBefore
    simp only [hnode, hmodify, Option.bind_eq_bind, Option.bind_some]
    exact Option.bind_eq_some_iff.mpr ⟨l₁, h₁, h₂⟩
  · refine represents_insert hl₂ hr₂ ?_ h.nodup hb.notMem ?_
    · rw [hw.nodes b hb.notMem, set_nodes_self]
    · exact fun a ha => hw.fresh ▸ hbound a (hw.exist a ha)

theorem Represents.insertAfter (h : l.Represents (xs ++ e :: ys)) (hb : l.Unlinked (xs ++ e :: ys) b v) :
    ∃ l', l.insertAfter e.1 b = some l' ∧ l'.Represents (xs ++ e :: (b, v) :: ys) := by
  have hsplit : ∀ zs : List (ℕ × α), xs ++ e :: zs = (xs ++ [e]) ++ zs := by simp
  have hend : endOf (xs ++ [e]) = some e.1 := by simp [endOf]
  have hnode := h.segment.node
  rw [Option.or_none, Option.or_none] at hnode
  rw [hsplit] at h hb
  obtain ⟨hl, hr, hmodify, hbound⟩ := h.prepare hb
  obtain ⟨l₁, l₂, h₁, h₂, hl₂, hr₂, hw⟩ := relink_backward hl hr h.nodup (some b) (some b)
  refine ⟨l₂, ?_, ?_⟩
  · unfold LinkedList.insertAfter
    rw [hend] at h₁ h₂
    simp only [hnode, hmodify, Option.bind_eq_bind, Option.bind_some]
    exact Option.bind_eq_some_iff.mpr ⟨l₁, h₁, h₂⟩
  · rw [hsplit]
    refine represents_insert hl₂ hr₂ ?_ h.nodup hb.notMem ?_
    · rw [hw.nodes b hb.notMem, set_nodes_self]
    · exact fun a ha => hw.fresh ▸ hbound a (hw.exist a ha)

/-- Removed from the list, the node is still in the heap until it is deleted. -/
theorem Represents.remove (h : l.Represents (xs ++ e :: ys)) :
    ∃ l', l.remove e.1 = some l' ∧ (l'.delete e.1).Represents (xs ++ ys) := by
  obtain ⟨hl, hr, hnodup, hbound⟩ := represents_append.mp h
  have hnode := h.segment.node
  rw [Option.or_none, Option.or_none] at hnode
  have hperm : (xs ++ e :: ys).Perm (e :: (xs ++ ys)) := perm_middle
  rw [(hperm.map Prod.fst).nodup_iff, map_cons, nodup_cons] at hnodup
  obtain ⟨hnotmem, hnodup⟩ := hnodup
  have hne : ∀ x ∈ xs ++ ys, x.1 ≠ e.1 := fun x hx heq => hnotmem (heq ▸ mem_addresses hx)
  have hr' : Right l (some e.1) ys := by
    refine ⟨?_, hr.segment.2⟩
    rw [hr.last, endOf_cons, Option.or_assoc]
    rfl
  obtain ⟨l₁, l₂, h₁, h₂, hl₂, hr₂, hw⟩ := relink hl hr' hnodup (startOf ys) (endOf xs)
  refine ⟨l₂, ?_, represents_append.mpr ⟨?_, ?_, hnodup, ?_⟩⟩
  · unfold LinkedList.remove
    simp only [hnode, Option.bind_eq_bind, Option.bind_some]
    exact Option.bind_eq_some_iff.mpr ⟨l₁, h₁, h₂⟩
  · exact hl₂.congr rfl fun x hx => set_nodes_of_ne (hne x (mem_append_left _ hx)) _
  · exact hr₂.congr rfl fun x hx => set_nodes_of_ne (hne x (mem_append_right _ hx)) _
  · intro a ha
    by_cases hae : a = e.1
    · simp [delete, hae] at ha
    · rw [delete, set_nodes_of_ne hae] at ha
      exact hw.fresh ▸ hbound a (hw.exist a ha)

theorem Represents.lt_fresh (h : l.Represents xs) (he : e ∈ xs) : e.1 < l.fresh := by
  obtain ⟨as, bs, rfl⟩ := append_of_mem he
  exact h.bound e.1 (by simp [h.segment.node])

theorem Represents.new (h : l.Represents xs) (v : α) :
    (l.new v).Represents xs ∧ (l.new v).Unlinked xs l.fresh v := by
  have hne : ∀ e ∈ xs, e.1 ≠ l.fresh := fun e he => Nat.ne_of_lt (h.lt_fresh he)
  refine ⟨⟨?_, h.nodup, h.first, h.last, ?_⟩, ⟨⟨v, none, none⟩, set_nodes_self _, rfl⟩, ?_⟩
  · exact h.segment.congr fun e he => set_nodes_of_ne (hne e he) _
  · intro a ha
    by_cases haf : a = l.fresh
    · exact haf ▸ Nat.lt_succ_self _
    · have hold : l.nodes a ≠ none := by
        rwa [LinkedList.new, set_nodes_of_ne haf] at ha
      exact Nat.lt_succ_of_lt (h.bound a hold)
  · rintro hmem
    obtain ⟨e, he, heq⟩ := mem_map.mp hmem
    exact hne e he heq

theorem Represents.setVal (h : l.Represents (xs ++ e :: ys)) (v : α) :
    ∃ l', l.setVal e.1 v = some l' ∧ l'.Represents (xs ++ (e.1, v) :: ys) ∧
      ∀ b w, l.Unlinked (xs ++ e :: ys) b w → l'.Unlinked (xs ++ (e.1, v) :: ys) b w := by
  obtain ⟨hl, hr, hnodup, hbound⟩ := represents_append.mp h
  have hnode := h.segment.node
  refine ⟨_, modify_eq hnode _, represents_append.mpr ⟨?_, ⟨?_, ?_⟩, ?_, ?_⟩, ?_⟩
  · refine hl.congr rfl fun x hx => set_nodes_of_ne ?_ _
    exact fun heq => not_mem_right hnodup hx (heq ▸ mem_cons_self)
  · cases ys <;> exact hr.last
  · refine ⟨by simp, hr.segment.2.congr fun y hy => set_nodes_of_ne ?_ _⟩
    intro heq
    have htail : ((e :: ys).map Prod.fst).Nodup := (map_append ▸ hnodup).of_append_right
    exact (nodup_cons.mp htail).1 (heq ▸ mem_addresses hy)
  · simpa using hnodup
  · exact fun a ha => hbound a ((rewired_set hnode (mem_singleton_self _)).exist a ha)
  · intro b w hb
    have hne : b ≠ e.1 := fun heq => hb.notMem (by simp [heq])
    refine ⟨?_, by simpa using hb.notMem⟩
    rw [set_nodes_of_ne hne]
    exact hb.node

theorem insertHead_empty (v : α) :
    ∃ l', ((empty : LinkedList α).new v).insertHead 0 = some l' ∧ l'.Represents [(0, v)] := by
  refine ⟨_, rfl, ⟨?_, trivial⟩, nodup_singleton _, rfl, rfl, ?_⟩
  · simp [set, startOf, LinkedList.new, empty]
  · intro a ha
    by_cases h0 : a = 0
    · simp [h0, LinkedList.new, empty, set]
    · simp [LinkedList.new, empty, set, h0] at ha

end Operations

/-- The iterations of `scan` over the nodes that it meets. -/
def scanList (body : β → ℕ → α → β × Bool) : List (ℕ × α) → β → β
  | [], acc => acc
  | e :: es, acc =>
    let next := body acc e.1 e.2
    if next.2 then next.1 else scanList body es next.1

theorem Segment.scan {p : Option ℕ} {es : List (ℕ × α)} (h : Segment l.nodes p es none)
    (body : β → ℕ → α → β × Bool) {fuel : ℕ} (hfuel : es.length ≤ fuel) (acc : β) :
    l.scan body fuel (startOf es) acc = some (scanList body es acc) := by
  induction es generalizing p fuel acc with
  | nil => cases fuel <;> rfl
  | cons e es ih =>
    obtain ⟨hnode, hes⟩ := h
    obtain ⟨fuel, rfl⟩ : ∃ k, fuel = k + 1 := ⟨fuel - 1, by simp at hfuel; omega⟩
    have hrest := ih hes (Nat.le_of_succ_le_succ hfuel) (body acc e.1 e.2).1
    simp only [startOf, List.head?_cons, Option.map_some, LinkedList.scan, hnode,
      Option.bind_eq_bind, Option.bind_some, Option.or_none, scanList]
    split
    · rfl
    · exact hrest

/-- Addresses are distinct, so `fresh` is enough fuel for a scan. -/
theorem Represents.length_le {es : List (ℕ × α)} (h : l.Represents es) : es.length ≤ l.fresh := by
  have hsub : es.map Prod.fst ⊆ List.range l.fresh := by
    intro a ha
    obtain ⟨e, he, rfl⟩ := mem_map.mp ha
    exact mem_range.mpr (h.lt_fresh he)
  have hlen := (h.nodup.subperm hsub).length_le
  simpa using hlen

theorem Represents.scan {es : List (ℕ × α)} (h : l.Represents es) (body : β → ℕ → α → β × Bool)
    (acc : β) : l.scan body l.fresh l.mFirst acc = some (scanList body es acc) := by
  rw [h.first]
  exact h.segment.scan body h.length_le acc

end LinkedList

end Binder.Lib
