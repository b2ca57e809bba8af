import Binder.MemoryDealer.Allocator
import Mathlib.Data.List.Chain

/-! Lists of chunks that tile a heap, and what allocating and freeing do to them. -/
namespace Binder.MemoryDealer
open List

variable {s e : ℕ} {c f : Chunk} {cs xs ys : List Chunk}

/-- The chunks follow each other from `s` to `e`, and none of them is empty. -/
def Tiles : ℕ → List Chunk → ℕ → Prop
  | s, [], e => s = e
  | s, c :: cs, e => c.start = s ∧ 0 < c.size ∧ Tiles (s + c.size) cs e

theorem tiles_append : Tiles s (xs ++ ys) e ↔ ∃ m, Tiles s xs m ∧ Tiles m ys e := by
  induction xs generalizing s with
  | nil => simp [Tiles]
  | cons c xs ih => simp only [cons_append, Tiles, ih, exists_and_left, and_assoc]

theorem Tiles.le (h : Tiles s cs e) : s ≤ e := by
  induction cs generalizing s with
  | nil => exact le_of_eq h
  | cons c cs ih =>
    have hrest := ih h.2.2
    omega

theorem Tiles.mem (h : Tiles s cs e) (hc : c ∈ cs) : s ≤ c.start ∧ 0 < c.size ∧ c.start + c.size ≤ e := by
  obtain ⟨xs, ys, rfl⟩ := append_of_mem hc
  obtain ⟨m, hxs, hstart, hpos, hys⟩ := tiles_append.mp h
  have hle := hxs.le
  have hle' := hys.le
  omega

theorem Tiles.pairwise (h : Tiles s cs e) : cs.Pairwise fun a b => a.start + a.size ≤ b.start := by
  induction cs generalizing s with
  | nil => exact .nil
  | cons c cs ih =>
    obtain ⟨hstart, -, hrest⟩ := h
    refine pairwise_cons.mpr ⟨fun d hd => ?_, ih hrest⟩
    have hafter := (hrest.mem hd).1
    omega

/-- The chunks follow each other from `s` to `e`; some of them may be empty. -/
def Abuts : ℕ → List Chunk → ℕ → Prop
  | s, [], e => s = e
  | s, c :: cs, e => c.start = s ∧ Abuts (s + c.size) cs e

theorem abuts_append : Abuts s (xs ++ ys) e ↔ ∃ m, Abuts s xs m ∧ Abuts m ys e := by
  induction xs generalizing s with
  | nil => simp [Abuts]
  | cons c xs ih => simp only [cons_append, Abuts, ih, exists_and_left, and_assoc]

theorem Tiles.abuts (h : Tiles s cs e) : Abuts s cs e := by
  induction cs generalizing s with
  | nil => exact h
  | cons c cs ih => exact ⟨h.1, ih h.2.2⟩

theorem Abuts.le (h : Abuts s cs e) : s ≤ e := by
  induction cs generalizing s with
  | nil => exact le_of_eq h
  | cons c cs ih =>
    have hrest := ih h.2
    omega

theorem Abuts.mem (h : Abuts s cs e) (hc : c ∈ cs) : c.start + c.size ≤ e := by
  obtain ⟨xs, ys, rfl⟩ := append_of_mem hc
  obtain ⟨m, -, hstart, hys⟩ := abuts_append.mp h
  have hle := hys.le
  omega

theorem Abuts.merge {p c : Chunk} (h : Abuts s (xs ++ p :: c :: ys) e) :
    Abuts s (xs ++ { p with size := p.size + c.size } :: ys) e := by
  obtain ⟨m, hxs, hp, hc, hys⟩ := abuts_append.mp h
  refine abuts_append.mpr ⟨m, hxs, hp, ?_⟩
  rwa [← Nat.add_assoc]

/-- No two neighbours are free. -/
def Separated (cs : List Chunk) : Prop :=
  cs.IsChain fun a b => ¬ (a.free = true ∧ b.free = true)

theorem separated_append : Separated (xs ++ ys) ↔ Separated xs ∧ Separated ys ∧
    ∀ a ∈ xs.getLast?, ∀ b ∈ ys.head?, ¬ (a.free = true ∧ b.free = true) :=
  isChain_append

theorem separated_cons : Separated (c :: cs) ↔
    (∀ b ∈ cs.head?, ¬ (c.free = true ∧ b.free = true)) ∧ Separated cs := by
  unfold Separated
  rw [isChain_cons]

/-- The neighbours of a place where a free chunk stood are not free. -/
theorem Separated.around (h : Separated (xs ++ c :: ys)) (hc : c.free = true) :
    Separated xs ∧ Separated ys ∧ (∀ a ∈ xs.getLast?, a.free = false) ∧ ∀ b ∈ ys.head?, b.free = false := by
  obtain ⟨hxs, hcys, hlast⟩ := separated_append.mp h
  obtain ⟨hhead, hys⟩ := separated_cons.mp hcys
  refine ⟨hxs, hys, ?_, ?_⟩
  · intro a ha
    have := hlast a ha c rfl
    simpa [hc] using this
  · intro b hb
    have := hhead b hb
    simpa [hc] using this

structure Partition (n : ℕ) (cs : List Chunk) : Prop where
  tiles : Tiles 0 cs n
  separated : Separated cs

variable {n gap size : ℕ}

theorem Partition.eq_of_all_free (h : Partition n cs) (hn : 0 < n)
    (hfree : ∀ c ∈ cs, c.free = true) : cs = [⟨0, n, true⟩] := by
  match cs, h with
  | [], h => exact absurd h.tiles (Nat.ne_of_lt hn)
  | [c], h =>
    obtain ⟨hstart, hpos, hend⟩ := h.tiles
    have hsize : c.size = n := by
      simpa [Tiles] using hend
    cases c
    simp_all
  | c :: d :: cs, h =>
    have hsep := (separated_cons.mp h.separated).1 d rfl
    exact absurd ⟨hfree c (by simp), hfree d (by simp)⟩ hsep

/-- The parts of a free chunk of which `size` units after `gap` are allocated. -/
def pieces (c : Chunk) (gap size : ℕ) : List Chunk :=
  (if gap = 0 then [] else [⟨c.start, gap, true⟩]) ++ ⟨c.start + gap, size, false⟩ ::
      (if c.size = gap + size then [] else [⟨c.start + gap + size, c.size - (gap + size), true⟩])

theorem tiles_pieces (hsize : 0 < size) (hfit : gap + size ≤ c.size) :
    Tiles c.start (pieces c gap size) (c.start + c.size) := by
  refine tiles_append.mpr ⟨c.start + gap, ?_, rfl, hsize, ?_⟩
  · split_ifs with hgap
    · simp [Tiles, hgap]
    · exact ⟨rfl, Nat.pos_of_ne_zero hgap, rfl⟩
  · dsimp only
    split_ifs with hexact
    · simp only [Tiles]
      omega
    · refine ⟨rfl, ?_, ?_⟩
      · dsimp only
        omega
      · simp only [Tiles]
        omega

theorem abuts_pieces (hfit : gap + size ≤ c.size) : Abuts c.start (pieces c gap size) (c.start + c.size) := by
  refine abuts_append.mpr ⟨c.start + gap, ?_, rfl, ?_⟩
  · split_ifs with hgap
    · simp [Abuts, hgap]
    · exact ⟨rfl, rfl⟩
  · dsimp only
    split_ifs with hexact
    · simp only [Abuts]
      omega
    · refine ⟨rfl, ?_⟩
      simp only [Abuts]
      omega

theorem Abuts.carve (h : Abuts s (xs ++ c :: ys) e) (hfit : gap + size ≤ c.size) :
    Abuts s (xs ++ pieces c gap size ++ ys) e := by
  obtain ⟨m, hxs, hstart, hys⟩ := abuts_append.mp h
  have hpieces := abuts_pieces hfit
  rw [hstart] at hpieces
  rw [append_assoc]
  exact abuts_append.mpr ⟨m, hxs, abuts_append.mpr ⟨m + c.size, hpieces, hys⟩⟩

def freeSpace (cs : List Chunk) : ℕ := ((cs.filter Chunk.free).map Chunk.size).sum

theorem freeSpace_append : freeSpace (xs ++ ys) = freeSpace xs + freeSpace ys := by
  simp [freeSpace]

theorem freeSpace_cons_free (hc : c.free = true) : freeSpace (c :: cs) = c.size + freeSpace cs := by
  simp [freeSpace, hc]

theorem freeSpace_pieces (hfit : gap + size ≤ c.size) : freeSpace (pieces c gap size) + size = c.size := by
  unfold pieces freeSpace
  split_ifs with hgap hexact hexact
  all_goals
    simp
    omega

theorem separated_pieces (c : Chunk) (gap size : ℕ) : Separated (pieces c gap size) := by
  unfold pieces
  split_ifs <;> simp [Separated]

/-- Allocating inside a free chunk leaves a partition. -/
theorem Partition.carve (h : Partition n (xs ++ c :: ys)) (hc : c.free = true)
    (hsize : 0 < size) (hfit : gap + size ≤ c.size) :
    Partition n (xs ++ pieces c gap size ++ ys) := by
  obtain ⟨hxs, hys, hlast, hhead⟩ := h.separated.around hc
  constructor
  · obtain ⟨m, htxs, hstart, -, htys⟩ := tiles_append.mp h.tiles
    rw [append_assoc]
    refine tiles_append.mpr ⟨m, htxs, tiles_append.mpr ⟨m + c.size, ?_, htys⟩⟩
    have htiles := tiles_pieces hsize hfit
    rwa [hstart] at htiles
  · refine separated_append.mpr ⟨separated_append.mpr ⟨hxs, separated_pieces c gap size, ?_⟩, hys, ?_⟩
    · intro a ha b hb hab
      simp [hlast a ha] at hab
    · intro a ha b hb hab
      simp [hhead b hb] at hab

/-- The chunk `f` has been freed and does not follow a free chunk; it may still precede one. -/
structure Loose (n : ℕ) (xs : List Chunk) (f : Chunk) (ys : List Chunk) : Prop where
  tiles : Tiles 0 (xs ++ f :: ys) n
  free : f.free = true
  left : Separated xs
  last : ∀ a ∈ xs.getLast?, a.free = false
  right : Separated ys

theorem Partition.release (h : Partition n (xs ++ c :: ys))
    (hlast : ∀ a ∈ xs.getLast?, a.free = false) : Loose n xs { c with free := true } ys := by
  obtain ⟨hxs, hcys, -⟩ := separated_append.mp h.separated
  obtain ⟨m, htxs, htys⟩ := tiles_append.mp h.tiles
  exact ⟨tiles_append.mpr ⟨m, htxs, htys⟩, rfl, hxs, hlast, (separated_cons.mp hcys).2⟩

/-- The freed chunk `c` goes into the free chunk `f` before it. -/
theorem Partition.releaseInto (h : Partition n (xs ++ f :: c :: ys)) (hf : f.free = true) :
    Loose n xs { f with size := f.size + c.size } ys := by
  obtain ⟨hxs, hcys, hlast, -⟩ := h.separated.around hf
  obtain ⟨m, htxs, hstart, hpos, hstart', hpos', htys⟩ := tiles_append.mp h.tiles
  refine ⟨tiles_append.mpr ⟨m, htxs, hstart, Nat.add_pos_left hpos _, ?_⟩, hf, hxs, hlast,
    (separated_cons.mp hcys).2⟩
  rwa [← Nat.add_assoc]

theorem Loose.partition (h : Loose n xs f ys) (hhead : ∀ b ∈ ys.head?, b.free = false) :
    Partition n (xs ++ f :: ys) := by
  refine ⟨h.tiles, separated_append.mpr ⟨h.left, separated_cons.mpr ⟨?_, h.right⟩, ?_⟩⟩
  · intro b hb hfb
    simp [hhead b hb] at hfb
  · intro a ha b hb hab
    simp [h.last a ha] at hab

/-- The free chunk `c` after the freed one goes into it. -/
theorem Loose.join (h : Loose n xs f (c :: ys)) (hc : c.free = true) :
    Partition n (xs ++ { f with size := f.size + c.size } :: ys) := by
  obtain ⟨hhead, hys⟩ := separated_cons.mp h.right
  obtain ⟨m, htxs, hstart, hpos, hstart', hpos', htys⟩ := tiles_append.mp h.tiles
  have hloose : Loose n xs { f with size := f.size + c.size } ys := by
    refine ⟨tiles_append.mpr ⟨m, htxs, hstart, Nat.add_pos_left hpos _, ?_⟩, h.free, h.left, h.last, hys⟩
    rwa [← Nat.add_assoc]
  refine hloose.partition ?_
  intro b hb
  have := hhead b hb
  simpa [hc] using this

def allocated (cs : List Chunk) : List Chunk := cs.filter fun c => !c.free

theorem mem_allocated : c ∈ allocated cs ↔ c ∈ cs ∧ c.free = false := by
  simp [allocated]

theorem allocated_append : allocated (xs ++ ys) = allocated xs ++ allocated ys :=
  filter_append ..

theorem allocated_cons_free (hc : c.free = true) : allocated (c :: cs) = allocated cs := by
  simp [allocated, hc]

theorem allocated_cons_used (hc : c.free = false) : allocated (c :: cs) = c :: allocated cs := by
  simp [allocated, hc]

theorem allocated_pieces (c : Chunk) (gap size : ℕ) :
    allocated (pieces c gap size) = [⟨c.start + gap, size, false⟩] := by
  unfold pieces
  split_ifs <;> rfl

end Binder.MemoryDealer
