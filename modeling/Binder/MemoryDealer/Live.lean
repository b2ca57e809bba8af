import Binder.Lib.Transition
import Binder.MemoryDealer.Refinement

/-! The allocations that the users of an allocator hold, over any sequence of its calls. -/
namespace Binder.MemoryDealer

open Lib SimpleBestFitAllocator List

/-- What `allocate` returned and what it was called with. -/
structure Allocation where
  offset : ℕ
  size : ℕ
  pageAligned : Bool
  deriving DecidableEq

structure Heap where
  allocator : SimpleBestFitAllocator
  live : List Allocation

namespace Heap

inductive Action
  | allocate (size : ℕ) (pageAligned : Bool)
  | deallocate (offset : ℕ)

def step (s : Heap) : Action → Option Heap
  | .allocate size pageAligned =>
    (s.allocator.allocate size pageAligned).map fun r => match r.1 with
      | none => { s with allocator := r.2 }
      | some offset => ⟨r.2, ⟨offset, size, pageAligned⟩ :: s.live⟩
  | .deallocate offset =>
    (s.allocator.deallocate offset).map fun r => ⟨r.2, s.live.eraseP (·.offset == offset)⟩

/-- Sizes are from one to `SIZE_MAX - 31`, and only live offsets are freed. -/
def Permitted (s : Heap) : Action → Prop
  | .allocate size _ => 0 < size ∧ size ≤ 2 ^ 64 - 1 - 31
  | .deallocate offset => offset ∈ s.live.map Allocation.offset

instance (s : Heap) (act : Action) : Decidable (Permitted s act) := by
  unfold Permitted
  split <;> infer_instance

/-- What a chunk and a live allocation occupy: the offset in bytes and the length in units. -/
def chunkSpan (c : Chunk) : ℕ × ℕ := (c.start * kMemoryAlign, c.size)
def liveSpan (x : Allocation) : ℕ × ℕ := (x.offset, units x.size)

/-- The live allocations are the allocated chunks. -/
structure Tracks (s : Heap) (k n : ℕ) (es : List (ℕ × Chunk)) : Prop where
  divides : s.allocator.Divides k n es
  live : ((allocated (es.map Prod.snd)).map chunkSpan).Perm (s.live.map liveSpan)
  aligned : ∀ x ∈ s.live, x.pageAligned = true → kMemoryAlign * 2 ^ k ∣ x.offset

section Steps

variable {k n size : ℕ} {b : Bool} {s s' : Heap} {es : List (ℕ × Chunk)} {x y : Allocation}

section

variable (h : s.Tracks k n es)
include h

theorem Tracks.chunk (hx : x ∈ s.live) : ∃ c ∈ es.map Prod.snd, c.free = false ∧ chunkSpan c = liveSpan x := by
  have hmem : liveSpan x ∈ (allocated (es.map Prod.snd)).map chunkSpan :=
    h.live.mem_iff.mpr (mem_map_of_mem hx)
  obtain ⟨c, hc, hspan⟩ := mem_map.mp hmem
  obtain ⟨hces, hfree⟩ := mem_allocated.mp hc
  exact ⟨c, hces, hfree, hspan⟩

theorem Tracks.allocate (hk : k ≤ 28) (hn : n < 2 ^ 28) (hpos : 0 < size) (hmax : size ≤ 2 ^ 64 - 1 - 31) :
    ∃ s' es', s.step (.allocate size b) = some s' ∧ s'.Tracks k n es' := by
  have hunits : 0 < units size := by
    unfold units kMemoryAlign
    omega
  have halloc := h.divides.chunked.alloc (b := b) hk hn hpos
  rw [rounded_eq_units hmax] at halloc
  rcases halloc with
    ⟨halloc, -⟩ | ⟨xs, e, ys, ps, l', rfl, hfits, -, halloc, hl', hps⟩
  · refine ⟨s, es, ?_, h⟩
    simp [step, SimpleBestFitAllocator.allocate, halloc]
  · refine ⟨⟨{ s.allocator with mList := l' },
      ⟨(e.2.start + gap (2 ^ k) b e.2.start) * kMemoryAlign, size, b⟩ :: s.live⟩, xs ++ ps ++ ys, ?_,
      ⟨?_, hl', ?_⟩, ?_, ?_⟩
    · simp only [step, SimpleBestFitAllocator.allocate, halloc, Option.map_some]
    · exact h.divides.pagesize
    · have hpart := h.divides.partition
      rw [map_append] at hpart
      rw [map_append, map_append, hps]
      exact hpart.carve hfits.1 hunits (by have := hfits.2; omega)
    · have hlive := h.live
      rw [map_append, map_cons, allocated_append, allocated_cons_free hfits.1] at hlive
      rw [map_append, map_append, hps, allocated_append, allocated_append,
        allocated_pieces, ← append_cons, map_append, map_cons]
      refine perm_middle.trans (.cons _ ?_)
      rwa [← map_append]
    · intro x hx hx'
      rcases mem_cons.mp hx with rfl | hx
      · obtain rfl : b = true := hx'
        have hdvd := dvd_add_gap (Nat.two_pow_pos k) e.2.start
        rw [mul_comm kMemoryAlign]
        exact Nat.mul_dvd_mul_right hdvd kMemoryAlign
      · exact h.aligned x hx hx'

/-- Freeing a live allocation frees its chunk and no other one. -/
theorem Tracks.free {ls rs : List Allocation} (hn : n < 2 ^ 28) (hlive : s.live = ls ++ x :: rs) :
    ∃ freed l' es' c cs ds, s.allocator.dealloc x.offset = some (some freed, { s.allocator with mList := l' }) ∧
      Tracks ⟨{ s.allocator with mList := l' }, ls ++ rs⟩ k n es' ∧ chunkSpan c = liveSpan x ∧
      allocated (es.map Prod.snd) = cs ++ c :: ds ∧ allocated (es'.map Prod.snd) = cs ++ ds := by
  have hx : x ∈ s.live := by simp [hlive]
  obtain ⟨c, hc, hused, hspan⟩ := h.chunk hx
  obtain ⟨e, he, rfl⟩ := mem_map.mp hc
  obtain ⟨xs, ys, rfl⟩ := append_of_mem he
  obtain ⟨freed, l', es', hdealloc, hdivides, hrest⟩ := h.divides.dealloc hn hused
  have hoffset : e.2.start * kMemoryAlign = x.offset := congrArg Prod.fst hspan
  have hall : allocated ((xs ++ e :: ys).map Prod.snd) =
      allocated (xs.map Prod.snd) ++ e.2 :: allocated (ys.map Prod.snd) := by
    rw [map_append, map_cons, allocated_append, allocated_cons_used hused]
  rw [hoffset] at hdealloc
  refine ⟨freed, l', es', e.2, _, _, hdealloc, ⟨hdivides, ?_, ?_⟩, hspan, hall, hrest⟩
  · have hperm := h.live
    rw [hall, hlive, map_append, map_append, map_cons, map_cons, hspan] at hperm
    rw [hrest, map_append, map_append]
    exact ((perm_middle.symm.trans hperm).trans perm_middle).cons_inv
  · intro z hz
    refine h.aligned z ?_
    rw [hlive]
    exact mem_append.mpr ((mem_append.mp hz).imp_right (mem_cons_of_mem _))

theorem Tracks.deallocate (hn : n < 2 ^ 28)
    {offset : ℕ} (hx : offset ∈ s.live.map Allocation.offset) :
    ∃ s' es', s.step (.deallocate offset) = some s' ∧ s'.Tracks k n es' := by
  obtain ⟨y, hy, hyo⟩ := mem_map.mp hx
  obtain ⟨x, ls, rs, -, hxo, hsplit, herase⟩ :=
    exists_of_eraseP (p := (·.offset == offset)) hy (beq_iff_eq.mpr hyo)
  obtain ⟨freed, l', es', -, -, -, hdealloc, htracks, -⟩ := h.free hn hsplit
  obtain rfl : x.offset = offset := beq_iff_eq.mp hxo
  refine ⟨⟨{ s.allocator with mList := l' }, ls ++ rs⟩, es', ?_, htracks⟩
  rw [← herase]
  simp [step, SimpleBestFitAllocator.deallocate, hdealloc]

/-- Every permitted call returns. -/
theorem Tracks.step (hk : k ≤ 28) (hn : n < 2 ^ 28) {act : Action}
    (hact : s.Permitted act) : ∃ s' es', s.step act = some s' ∧ s'.Tracks k n es' := by
  cases act with
  | allocate => exact h.allocate hk hn hact.1 hact.2
  | deallocate => exact h.deallocate hn hact

end

def Apart (p q : ℕ × ℕ) : Prop := p.1 + p.2 * kMemoryAlign ≤ q.1 ∨ q.1 + q.2 * kMemoryAlign ≤ p.1

theorem Tracks.pairwise (h : s.Tracks k n es) : s.live.Pairwise fun x y => Apart (liveSpan x) (liveSpan y) := by
  rw [← pairwise_map, ← h.live.pairwise_iff fun hpq => hpq.symm, pairwise_map]
  refine (h.divides.partition.tiles.pairwise.filter _).imp fun hle => .inl ?_
  rw [chunkSpan, chunkSpan, ← Nat.add_mul]
  exact Nat.mul_le_mul_right _ hle

theorem le_units (size : ℕ) : size ≤ units size * kMemoryAlign := by
  unfold units kMemoryAlign
  omega

end Steps

theorem Tracks.inside {k n : ℕ} {s : Heap} {es : List (ℕ × Chunk)} {x : Allocation}
    (h : s.Tracks k n es) (hx : x ∈ s.live) :
    x.offset + x.size ≤ n * kMemoryAlign ∧ kMemoryAlign ∣ x.offset ∧
      ∃ c ∈ es.map Prod.snd, c.free = false ∧ x.offset = c.start * kMemoryAlign ∧
        x.size ≤ c.size * kMemoryAlign := by
  obtain ⟨c, hc, hused, hspan⟩ := h.chunk hx
  obtain ⟨hoffset, hunits⟩ := Prod.mk.inj hspan
  have hsize : x.size ≤ c.size * kMemoryAlign := hunits ▸ le_units x.size
  have hend := (h.divides.partition.tiles.mem hc).2.2
  refine ⟨?_, ⟨c.start, by rw [← hoffset, mul_comm]⟩, c, hc, hused, hoffset.symm, hsize⟩
  calc x.offset + x.size ≤ c.start * kMemoryAlign + c.size * kMemoryAlign := by omega
    _ = (c.start + c.size) * kMemoryAlign := (Nat.add_mul ..).symm
    _ ≤ n * kMemoryAlign := Nat.mul_le_mul_right _ hend

theorem Tracks.eq_of_no_live {k n : ℕ} {s : Heap} {es : List (ℕ × Chunk)} (h : s.Tracks k n es)
    (hn : 0 < n) (hlive : s.live = []) : es.map Prod.snd = [⟨0, n, true⟩] := by
  refine h.divides.partition.eq_of_all_free hn fun c hc => ?_
  by_contra hused
  have hmem : c ∈ allocated (es.map Prod.snd) :=
    mem_allocated.mpr ⟨hc, by simpa using hused⟩
  have hspan := h.live.mem_iff.mp (mem_map_of_mem hmem)
  simp [hlive] at hspan

theorem page_le_of_small {k size : ℕ} (hpos : 0 < heapSize (kMemoryAlign * 2 ^ k) size)
    (hsmall : heapSize (kMemoryAlign * 2 ^ k) size < 2 ^ 28 * kMemoryAlign) :
    k ≤ 28 ∧ heapSize (kMemoryAlign * 2 ^ k) size / kMemoryAlign < 2 ^ 28 := by
  have hn : heapSize (kMemoryAlign * 2 ^ k) size / kMemoryAlign < 2 ^ 28 :=
    (Nat.div_lt_iff_lt_mul (by decide)).mpr hsmall
  have hpage : 2 ^ k ≤ heapSize (kMemoryAlign * 2 ^ k) size / kMemoryAlign := by
    rw [Nat.le_div_iff_mul_le (by decide), mul_comm]
    exact Nat.le_of_dvd hpos (dvd_heapSize k size)
  have hlt : 2 ^ k < 2 ^ 28 := hpage.trans_lt hn
  exact ⟨((Nat.pow_lt_pow_iff_right (by decide)).mp hlt).le, hn⟩

/-- On a heap of whole pages that is not empty and fits the bit-field, no call fails to return, the
chunks always partition the heap, and the live allocations are disjoint parts of it. -/
theorem live_partition (k size : ℕ) (hpos : 0 < heapSize (kMemoryAlign * 2 ^ k) size)
    (hsmall : heapSize (kMemoryAlign * 2 ^ k) size < 2 ^ 28 * kMemoryAlign) :
    let heap := heapSize (kMemoryAlign * 2 ^ k) size
    ∃ a, make (kMemoryAlign * 2 ^ k) size = some a ∧ a.mHeapSize = heap ∧ ∀ s, Reachable step Permitted ⟨a, []⟩ s →
        (∀ act, s.Permitted act → ∃ s', s.step act = some s') ∧
        (∃ es, s.allocator.mList.Represents es ∧ Partition (heap / kMemoryAlign) (es.map Prod.snd) ∧
          (∀ x ∈ s.live, ∃ c ∈ es.map Prod.snd, c.free = false ∧
            x.offset = c.start * kMemoryAlign ∧ x.size ≤ c.size * kMemoryAlign) ∧
          (s.live = [] → es.map Prod.snd = [⟨0, heap / kMemoryAlign, true⟩])) ∧
        (s.live.Pairwise fun x y =>
          x.offset + x.size ≤ y.offset ∨ y.offset + y.size ≤ x.offset) ∧
        ∀ x ∈ s.live, x.offset + x.size ≤ heap ∧ kMemoryAlign ∣ x.offset ∧
          (x.pageAligned = true → kMemoryAlign * 2 ^ k ∣ x.offset) := by
  intro heap
  have hdvd : kMemoryAlign * 2 ^ k ∣ heap := dvd_heapSize k size
  obtain ⟨hk, hn⟩ := page_le_of_small hpos hsmall
  have hunits : 0 < heap / kMemoryAlign :=
    Nat.div_pos (Nat.le_of_dvd hpos ((Dvd.intro _ rfl).trans hdvd)) (by decide)
  have hheap : heap / kMemoryAlign * kMemoryAlign = heap :=
    Nat.div_mul_cancel ((Dvd.intro _ rfl).trans hdvd)
  obtain ⟨a, hmake, hsize, hdivides⟩ := make_divides rfl hpos hsmall
  refine ⟨a, hmake, hsize, fun s hs => ?_⟩
  obtain ⟨es, h⟩ : ∃ es, s.Tracks k (heap / kMemoryAlign) es := by
    refine hs.invariant (fun s => ∃ es, s.Tracks k (heap / kMemoryAlign) es) ?_ ?_
    · exact ⟨_, hdivides, by simp [allocated], by simp⟩
    · rintro s act s' ⟨es, h⟩ hact hstep
      obtain ⟨s'', es', hstep', h'⟩ := h.step hk hn hact
      cases hstep.symm.trans hstep'
      exact ⟨es', h'⟩
  refine ⟨fun act hact => ?_, ⟨es, h.divides.represents, h.divides.partition, ?_, ?_⟩, ?_, ?_⟩
  · obtain ⟨s', -, hstep, -⟩ := h.step hk hn hact
    exact ⟨s', hstep⟩
  · exact fun x hx => (h.inside hx).2.2
  · exact h.eq_of_no_live hunits
  · refine h.pairwise.imp fun {x y} hxy => ?_
    have hxsize := le_units x.size
    have hysize := le_units y.size
    unfold Apart liveSpan at hxy
    dsimp only at hxy
    omega
  · intro x hx
    obtain ⟨hinside, haligned, -⟩ := h.inside hx
    exact ⟨hheap ▸ hinside, haligned, h.aligned x hx⟩

/-- Three pages with an allocation in the first one and a page-aligned one behind it. -/
theorem live_partition_pages : ∃ a s, make (kMemoryAlign * 2 ^ 7) 10000 = some a ∧
    Reachable step Permitted ⟨a, []⟩ s ∧
    s.live = [⟨4096, 5000, true⟩, ⟨128, 10, false⟩] ∧
    ∀ x ∈ s.live, x.offset + x.size ≤ heapSize (kMemoryAlign * 2 ^ 7) 10000 := by
  obtain ⟨a, hmake, -, h⟩ := live_partition 7 10000 (by decide) (by decide)
  obtain ⟨s, hs, hlive⟩ := exists_reachable step Permitted
    ⟨(make (kMemoryAlign * 2 ^ 7) 10000).get (by decide), []⟩
    [.allocate 100 false, .allocate 10 false, .deallocate 0, .allocate 5000 true]
    (·.live = [⟨4096, 5000, true⟩, ⟨128, 10, false⟩]) (by decide)
  have hget : (make (kMemoryAlign * 2 ^ 7) 10000).get (by decide) = a := by
    rw [Option.get_of_eq_some _ hmake]
  rw [hget] at hs
  exact ⟨a, s, hmake, hs, hlive, fun x hx => ((h s hs).2.2.2 x hx).1⟩

end Heap

end Binder.MemoryDealer
