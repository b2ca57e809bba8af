import Binder.MemoryDealer.Live

/-! `MemoryDealer`: the allocations it hands out until they are destroyed, for heaps and requests of every size. -/
namespace Binder.MemoryDealer

open Lib LinkedList SimpleBestFitAllocator List

/-- `mHeap` is the size of the mapped heap. -/
structure Dealer where
  mHeap : ℕ
  mAllocator : SimpleBestFitAllocator

namespace Dealer

def make (pagesize size : ℕ) : Option Dealer :=
  (SimpleBestFitAllocator.make pagesize size).map fun a => ⟨heapSize pagesize size, a⟩

/-- The inner `none` is a null result. -/
def allocate (d : Dealer) (size : ℕ) : Option (Option Allocation × Dealer) :=
  (d.mAllocator.allocate size false).map fun r =>
    ((r.1.filter fun offset : ℕ => 0 ≤ toSSizeT offset).map fun offset => ⟨offset, size, false⟩,
      { d with mAllocator := r.2 })

/-- The destructor of an `Allocation`, without the pages it gives back to the kernel. -/
def destroy (d : Dealer) (x : Allocation) : Option Dealer :=
  if x.size ≠ 0 then (d.mAllocator.deallocate x.offset).map fun r => { d with mAllocator := r.2 } else some d

end Dealer

/-- A dealer and the allocations that its users hold. -/
structure Users where
  dealer : Dealer
  live : List Allocation := []

namespace Users

inductive Action
  | allocate (size : BitVec 64)
  | destroy (x : Allocation)

def step (u : Users) : Action → Option Users
  | .allocate size => (u.dealer.allocate size.toNat).map fun r => ⟨r.2, r.1.toList ++ u.live⟩
  | .destroy x => if x ∈ u.live then (u.dealer.destroy x).map fun d => ⟨d, u.live.erase x⟩ else none

def chunks (u : Users) : List Chunk :=
  (u.dealer.mAllocator.mList.scan (fun cs _ c => (cs ++ [c], false)) u.dealer.mAllocator.mList.fresh
    u.dealer.mAllocator.mList.mFirst []).getD []

/-- A request that is rounded up past `SIZE_MAX` finds no free chunk. -/
def Keeps (u : Users) : Action → Prop
  | .allocate size => size.toNat ≤ 2 ^ 64 - 1 - 31 ∨ ∀ c ∈ u.chunks, c.free = false
  | .destroy _ => True

instance (u : Users) (act : Action) : Decidable (Keeps u act) := by
  unfold Keeps
  split <;> infer_instance

/-- What destroying a live allocation must do: it takes its own chunk from those in use, or nothing if it is empty. -/
def FreesOwn (u : Users) (x : Allocation) : Prop :=
  ∃ u', u.step (.destroy x) = some u' ∧ u'.live = u.live.erase x ∧ if x.size = 0 then u'.dealer = u.dealer
    else ∃ c cs ds, Heap.chunkSpan c = Heap.liveSpan x ∧ allocated u.chunks = cs ++ c :: ds ∧
      allocated u'.chunks = cs ++ ds

structure Sound (u : Users) : Prop where
  inside : ∀ x ∈ u.live, x.offset + x.size ≤ u.dealer.mHeap
  disjoint : u.live.Pairwise fun x y =>
    x.size = 0 ∨ y.size = 0 ∨ x.offset + x.size ≤ y.offset ∨ y.offset + y.size ≤ x.offset
  frees : ∀ x ∈ u.live, u.FreesOwn x

/-- The allocations that have a chunk. -/
def heap (u : Users) : Heap := ⟨u.dealer.mAllocator, u.live.filter fun x => x.size ≠ 0⟩

/-- The chunks are those of the allocations that are not empty; a heap whose size in units does not fit the bit-field
may have no room at all. -/
structure Tracked (u : Users) (k : ℕ) : Prop where
  tracks : ∃ n es, n < 2 ^ 28 ∧ n * kMemoryAlign ≤ u.dealer.mHeap ∧
    (u.heap.Tracks k n es ∨ es = [(0, ⟨0, 0, true⟩)] ∧ u.dealer.mAllocator.Chunked k n es ∧ u.heap.live = [])
  zero : ∀ x ∈ u.live, x.size = 0 → x.offset = 0

section Steps

variable {k n size : ℕ} {u u' : Users} {es : List (ℕ × Chunk)} {x : Allocation} {act : Action}

theorem scanList_collect (es : List (ℕ × Chunk)) (acc : List Chunk) :
    scanList (fun cs _ c => (cs ++ [c], false)) es acc = acc ++ es.map Prod.snd := by
  induction es generalizing acc with
  | nil => exact (append_nil acc).symm
  | cons e es ih =>
    have hrest := ih (acc ++ [e.2])
    simpa [scanList] using hrest

theorem chunks_eq (h : u.dealer.mAllocator.mList.Represents es) : u.chunks = es.map Prod.snd := by
  unfold chunks
  rw [h.scan, Option.getD_some, scanList_collect, nil_append]

theorem mem_heap_live : x ∈ u.heap.live ↔ x ∈ u.live ∧ x.size ≠ 0 := by
  simp [heap]

/-- Destroying an allocation that is not empty frees its chunk. -/
theorem destroy_of_tracks (h : u.heap.Tracks k n es) (hn : n < 2 ^ 28) (hx : x ∈ u.live) (hsize : x.size ≠ 0) :
    ∃ u' es', u.step (.destroy x) = some u' ∧ u'.live = u.live.erase x ∧ u'.dealer.mHeap = u.dealer.mHeap ∧
      u'.heap.Tracks k n es' ∧ ∃ c cs ds, Heap.chunkSpan c = Heap.liveSpan x ∧
        allocated u.chunks = cs ++ c :: ds ∧ allocated u'.chunks = cs ++ ds := by
  obtain ⟨ls, rs, -, hsplit, herase⟩ := exists_erase_eq hx
  have hlive : u.heap.live = ls.filter (·.size ≠ 0) ++ x :: rs.filter (·.size ≠ 0) := by
    simp [heap, hsplit, hsize]
  obtain ⟨freed, l', es', c, cs, ds, hdealloc, htracks, hspan, hcs, hds⟩ := h.free hn hlive
  refine ⟨⟨⟨u.dealer.mHeap, { u.dealer.mAllocator with mList := l' }⟩, u.live.erase x⟩, es', ?_, rfl, rfl, ?_,
    c, cs, ds, hspan, ?_, ?_⟩
  · change u.dealer.mAllocator.dealloc x.offset = some (some freed, { u.dealer.mAllocator with mList := l' }) at hdealloc
    simp [step, hx, Dealer.destroy, hsize, SimpleBestFitAllocator.deallocate, hdealloc]
  · have hfilter : (u.live.erase x).filter (·.size ≠ 0) = ls.filter (·.size ≠ 0) ++ rs.filter (·.size ≠ 0) := by
      rw [herase, filter_append]
    rw [heap, hfilter]
    exact htracks
  · rw [chunks_eq h.divides.represents, hcs]
  · rw [chunks_eq htracks.divides.represents, hds]

theorem destroy_of_size_zero (hx : x ∈ u.live) (hsize : x.size = 0) :
    u.step (.destroy x) = some ⟨u.dealer, u.live.erase x⟩ := by
  simp [step, hx, Dealer.destroy, hsize]

theorem Tracked.sound (h : u.Tracked k) : u.Sound := by
  obtain ⟨⟨n, es, hn, hheap, htracks⟩, hzero⟩ := h
  have hempty : ∀ x ∈ u.live, u.heap.live = [] → x.size = 0 := by
    intro x hx hlive
    by_contra hsize
    have hmem : x ∈ u.heap.live := mem_heap_live.mpr ⟨hx, hsize⟩
    simp [hlive] at hmem
  have hsome : ∀ x ∈ u.live, x.size ≠ 0 → u.heap.Tracks k n es := by
    intro x hx hsize
    rcases htracks with htracks | ⟨-, -, hlive⟩
    · exact htracks
    · exact absurd (hempty x hx hlive) hsize
  refine ⟨?_, ?_, ?_⟩
  · intro x hx
    by_cases hsize : x.size = 0
    · simp [hzero x hx hsize, hsize]
    · have hinside := (hsome x hx hsize).inside (mem_heap_live.mpr ⟨hx, hsize⟩)
      exact hinside.1.trans hheap
  · rcases htracks with htracks | ⟨-, -, hlive⟩
    · have hpairwise := htracks.pairwise
      simp only [heap, pairwise_filter, decide_eq_true_eq] at hpairwise
      refine hpairwise.imp fun {x y} hxy => ?_
      have hxsize := Heap.le_units x.size
      have hysize := Heap.le_units y.size
      unfold Heap.Apart Heap.liveSpan at hxy
      dsimp only at hxy
      omega
    · exact pairwise_of_forall_mem_list fun x hx _ _ => .inl (hempty x hx hlive)
  · intro x hx
    by_cases hsize : x.size = 0
    · exact ⟨_, destroy_of_size_zero hx hsize, rfl, by rw [if_pos hsize]⟩
    · obtain ⟨u', -, hstep, hlive, -, -, hchunk⟩ := destroy_of_tracks (hsome x hx hsize) hn hx hsize
      exact ⟨u', hstep, hlive, by rwa [if_neg hsize]⟩

theorem Tracked.chunked (h : u.Tracked k) :
    ∃ n es, n < 2 ^ 28 ∧ n * kMemoryAlign ≤ u.dealer.mHeap ∧ u.dealer.mAllocator.Chunked k n es := by
  obtain ⟨⟨n, es, hn, hheap, htracks | ⟨-, hchunked, -⟩⟩, -⟩ := h
  · exact ⟨n, es, hn, hheap, htracks.divides.chunked⟩
  · exact ⟨n, es, hn, hheap, hchunked⟩

theorem allocate_zero : u.step (.allocate 0) = some ⟨u.dealer, ⟨0, 0, false⟩ :: u.live⟩ := rfl

theorem allocate_of_no_fit {w : BitVec 64} (hk : k ≤ 28) (hn : n < 2 ^ 28) (h : u.dealer.mAllocator.Chunked k n es)
    (hpos : 0 < w.toNat) (hno : ∀ e ∈ es, ¬ Fits (2 ^ k) (rounded w.toNat) false e.2) :
    u.step (.allocate w) = some u := by
  rcases h.alloc (b := false) hk hn hpos with ⟨halloc, -⟩ | ⟨xs, e, ys, -, -, rfl, hfits, -⟩
  · simp [step, Dealer.allocate, SimpleBestFitAllocator.allocate, halloc]
  · exact absurd hfits (hno e (by simp))

theorem toSSizeT_natCast {m : ℕ} (h : m < 2 ^ 63) : 0 ≤ toSSizeT m := by
  unfold toSSizeT
  rw [Int.bmod_eq_of_le_mul_two (by omega) (by omega)]
  exact Int.natCast_nonneg m

theorem allocate_of_some {w : BitVec 64} {offset : ℕ} {a : SimpleBestFitAllocator} (hoffset : offset < 2 ^ 63)
    (halloc : u.dealer.mAllocator.allocate w.toNat false = some (some offset, a)) :
    u.step (.allocate w) = some ⟨⟨u.dealer.mHeap, a⟩, ⟨offset, w.toNat, false⟩ :: u.live⟩ := by
  have hfilter : (some offset).filter (fun offset : ℕ => 0 ≤ toSSizeT offset) = some offset :=
    Option.filter_some_pos (by simpa using toSSizeT_natCast hoffset)
  simp only [Users.step, Dealer.allocate, halloc, Option.map_some, hfilter]
  rfl

theorem Tracked.allocate {w : BitVec 64} (h : u.Tracked k) (hk : k ≤ 28) (hact : u.Keeps (.allocate w)) :
    ∃ u', u.step (.allocate w) = some u' ∧ u'.dealer.mHeap = u.dealer.mHeap ∧ u'.Tracked k := by
  rcases Nat.eq_zero_or_pos w.toNat with hw | hpos
  · obtain rfl : w = 0 := BitVec.eq_of_toNat_eq hw
    obtain ⟨htracks, hzero⟩ := h
    refine ⟨_, allocate_zero, rfl, htracks, ?_⟩
    intro x hx hsize
    rcases mem_cons.mp hx with rfl | hx
    · rfl
    · exact hzero x hx hsize
  obtain ⟨⟨n, es, hn, hheap, htracks⟩, hzero⟩ := id h
  have hno : ∀ (hchunked : u.dealer.mAllocator.Chunked k n es),
      (∀ e ∈ es, ¬ Fits (2 ^ k) (rounded w.toNat) false e.2) →
      ∃ u', u.step (.allocate w) = some u' ∧ u'.dealer.mHeap = u.dealer.mHeap ∧ u'.Tracked k :=
    fun hchunked hno => ⟨u, allocate_of_no_fit hk hn hchunked hpos hno, rfl, h⟩
  rcases htracks with htracks | ⟨rfl, hchunked, -⟩
  · rcases hact with hmax | hfull
    · obtain ⟨s', es', hs', htracks'⟩ := htracks.allocate (b := false) hk hn hpos hmax
      obtain ⟨r, hr, rfl⟩ := Option.map_eq_some_iff.mp hs'
      change u.dealer.mAllocator.allocate w.toNat false = some r at hr
      obtain ⟨_ | offset, a'⟩ := r
      · refine ⟨⟨⟨u.dealer.mHeap, a'⟩, u.live⟩, ?_, rfl, ⟨n, es', hn, hheap, .inl htracks'⟩, hzero⟩
        simp [step, Dealer.allocate, hr]
      · have hinside := (htracks'.inside mem_cons_self).1
        have hle : offset < 2 ^ 63 := by
          unfold kMemoryAlign at hinside
          dsimp only at hinside
          omega
        refine ⟨_, allocate_of_some hle hr, rfl, ⟨n, es', hn, hheap, .inl ?_⟩, ?_⟩
        · have hfilter : (⟨offset, w.toNat, false⟩ :: u.live : List Allocation).filter (·.size ≠ 0) =
              ⟨offset, w.toNat, false⟩ :: u.live.filter (·.size ≠ 0) :=
            filter_cons_of_pos (by simpa using Nat.ne_of_gt hpos)
          rw [heap, hfilter]
          exact htracks'
        · intro x hx hsize
          rcases mem_cons.mp hx with rfl | hx
          · exact absurd hsize (Nat.ne_of_gt hpos)
          · exact hzero x hx hsize
    · refine hno htracks.divides.chunked fun e he hfits => ?_
      have hused := hfull e.2 (by rw [chunks_eq htracks.divides.represents]; exact mem_map_of_mem he)
      exact absurd (hfits.1.symm.trans hused) nofun
  · refine hno hchunked fun e he hfits => ?_
    obtain rfl : e = (0, ⟨0, 0, true⟩) := mem_singleton.mp he
    rcases hact with hmax | hfull
    · have hle := hfits.2
      rw [rounded_eq_units hmax] at hle
      unfold units kMemoryAlign at hle
      dsimp only at hle
      omega
    · have hused := hfull ⟨0, 0, true⟩ (by rw [chunks_eq hchunked.represents]; exact mem_singleton_self _)
      cases hused

theorem Tracked.destroy (h : u.Tracked k) (hstep : u.step (.destroy x) = some u') :
    u'.dealer.mHeap = u.dealer.mHeap ∧ u'.Tracked k := by
  have hx : x ∈ u.live := by
    by_contra hx
    simp [step, hx] at hstep
  obtain ⟨⟨n, es, hn, hheap, htracks⟩, hzero⟩ := h
  by_cases hsize : x.size = 0
  · rw [destroy_of_size_zero hx hsize] at hstep
    cases hstep
    have hlive : Users.heap ⟨u.dealer, u.live.erase x⟩ = u.heap := by
      obtain ⟨ls, rs, -, hsplit, herase⟩ := exists_erase_eq hx
      rw [heap, heap, herase, hsplit, filter_append, filter_append, filter_cons_of_neg (by simp [hsize])]
    refine ⟨rfl, ⟨n, es, hn, hheap, ?_⟩, fun y hy => hzero y (mem_of_mem_erase hy)⟩
    rw [hlive]
    exact htracks
  · rcases htracks with htracks | ⟨-, -, hlive⟩
    · obtain ⟨u₁, es', hstep', herase, hmHeap, htracks', -⟩ := destroy_of_tracks htracks hn hx hsize
      cases hstep.symm.trans hstep'
      refine ⟨hmHeap, ⟨n, es', hn, hmHeap ▸ hheap, .inl htracks'⟩, fun y hy => hzero y ?_⟩
      rw [herase] at hy
      exact mem_of_mem_erase hy
    · have hmem : x ∈ u.heap.live := mem_heap_live.mpr ⟨hx, hsize⟩
      simp [hlive] at hmem

theorem Tracked.step (h : u.Tracked k) (hk : k ≤ 28) (hact : u.Keeps act) (hstep : u.step act = some u') :
    u'.dealer.mHeap = u.dealer.mHeap ∧ u'.Tracked k := by
  cases act with
  | allocate =>
    obtain ⟨u₁, hstep', htracked⟩ := h.allocate hk hact
    cases hstep.symm.trans hstep'
    exact htracked
  | destroy => exact h.destroy hstep

/-- Where a free chunk is left, a request that is rounded up past `SIZE_MAX` gets a place in the heap. -/
theorem Tracked.not_sound_of_wrap {w : BitVec 64} (h : u.Tracked k) (hk : k ≤ 28)
    (hmHeap : u.dealer.mHeap ≤ 2 ^ 64 - 1 - 31) (hact : ¬ u.Keeps (.allocate w))
    (hstep : u.step (.allocate w) = some u') : ¬ u'.Sound := by
  obtain ⟨hmax, hfree⟩ := not_or.mp hact
  obtain ⟨n, es, hn, -, hchunked⟩ := h.chunked
  have hzero : rounded w.toNat = 0 := by
    unfold rounded toSizeT kMemoryAlign
    omega
  intro hsound
  rcases hchunked.alloc (b := false) hk hn (by omega : 0 < w.toNat) with
    ⟨-, hno⟩ | ⟨xs, e, ys, ps, l', rfl, hfits, -, halloc, -, -⟩
  · rw [chunks_eq hchunked.represents] at hfree
    apply hfree
    intro c hc
    obtain ⟨e, he, rfl⟩ := mem_map.mp hc
    have hnofit := hno e he
    rw [hzero] at hnofit
    simpa [Fits, gap] using hnofit
  · have hend := hchunked.abuts.mem (mem_map_of_mem (mem_append_right xs mem_cons_self))
    have hgap : gap (2 ^ k) false e.2.start = 0 := rfl
    have hoffset : (e.2.start + gap (2 ^ k) false e.2.start) * kMemoryAlign < 2 ^ 63 := by
      unfold kMemoryAlign
      omega
    cases hstep.symm.trans (allocate_of_some hoffset halloc)
    have hinside := hsound.inside _ mem_cons_self
    dsimp only at hinside
    omega

end Steps

theorem make_tracked (k size : ℕ) : ∃ d, Dealer.make (kMemoryAlign * 2 ^ k) size = some d ∧
    d.mHeap = heapSize (kMemoryAlign * 2 ^ k) size ∧ Tracked ⟨d, []⟩ k := by
  obtain ⟨l, hmake, hl⟩ := make_represents (kMemoryAlign * 2 ^ k) size
  rw [Dealer.make, hmake, Option.map_some]
  refine ⟨_, rfl, rfl, ?_, nofun⟩
  generalize heapSize (kMemoryAlign * 2 ^ k) size = heap at hl
  have hle : toField (heap / kMemoryAlign) ≤ heap / kMemoryAlign := Nat.mod_le _ _
  refine ⟨toField (heap / kMemoryAlign), [(0, Chunk.make 0 (heap / kMemoryAlign))], Nat.mod_lt _ (Nat.two_pow_pos 28),
    (Nat.mul_le_mul_right _ hle).trans (Nat.div_mul_le_self _ _), ?_⟩
  rcases Nat.eq_zero_or_pos (toField (heap / kMemoryAlign)) with hzero | hpos
  · right
    rw [Chunk.make, hzero] at hl ⊢
    exact ⟨rfl, ⟨rfl, hl, rfl, rfl⟩, rfl⟩
  · left
    exact ⟨divides_singleton hpos hl _, by simp [allocated, Chunk.make, Users.heap],
      fun _ hmem => absurd hmem not_mem_nil⟩

/-- Over the calls that meet the condition, on a heap of any size: what is handed out lies in the heap, apart from all
else that is live and not empty, and destroying it frees its own chunk; only the condition keeps it so. -/
theorem allocations_sound (k size : ℕ) (hpage : kMemoryAlign * 2 ^ k < 2 ^ 31) :
    ∃ d, Dealer.make (kMemoryAlign * 2 ^ k) size = some d ∧ d.mHeap = heapSize (kMemoryAlign * 2 ^ k) size ∧
      ∀ u, Reachable step Keeps ⟨d, []⟩ u → u.dealer.mHeap = d.mHeap ∧ u.Sound ∧
        (∀ w, u.Keeps (.allocate w) → ∃ u', u.step (.allocate w) = some u') ∧
        ∀ act u', u.step act = some u' → (u'.Sound ↔ u.Keeps act) := by
  have hk : k ≤ 28 := by
    have hlt : 2 ^ k < 2 ^ 28 := by
      unfold kMemoryAlign at hpage
      omega
    exact ((Nat.pow_lt_pow_iff_right (by decide)).mp hlt).le
  obtain ⟨d, hmake, hheap, htracked⟩ := make_tracked k size
  have hmax : d.mHeap ≤ 2 ^ 64 - 1 - 31 := by
    have hdvd : kMemoryAlign ∣ d.mHeap := (Dvd.intro _ rfl).trans (hheap ▸ dvd_heapSize k size)
    have hlt : d.mHeap < 2 ^ 64 := by
      rw [hheap, heapSize]
      refine Nat.and_lt_two_pow _ ?_
      unfold toSizeT
      omega
    unfold kMemoryAlign at hdvd
    omega
  refine ⟨d, hmake, hheap, fun u hu => ?_⟩
  obtain ⟨hsame, hu⟩ : u.dealer.mHeap = d.mHeap ∧ u.Tracked k := by
    refine hu.invariant (fun u => u.dealer.mHeap = d.mHeap ∧ u.Tracked k) ⟨rfl, htracked⟩ ?_
    rintro u act u' ⟨hsame, hu⟩ hact hstep
    obtain ⟨hsame', hu'⟩ := hu.step hk hact hstep
    exact ⟨hsame'.trans hsame, hu'⟩
  refine ⟨hsame, hu.sound, ?_, ?_⟩
  · intro w hact
    obtain ⟨u', hstep, -⟩ := hu.allocate hk hact
    exact ⟨u', hstep⟩
  · intro act u' hstep
    constructor
    · intro hsound
      by_contra hact
      cases act with
      | allocate => exact hu.not_sound_of_wrap hk (hsame ▸ hmax) hact hstep hsound
      | destroy => exact hact trivial
    · intro hact
      exact (hu.step hk hact hstep).2.sound

/-- A heap of `2 ^ 33` bytes and a page: the bit-field keeps the page only, and it is handed out. -/
theorem allocations_sound_page : ∃ d u, Dealer.make (kMemoryAlign * 2 ^ 7) (2 ^ 33 + 4096) = some d ∧
    Reachable step Keeps ⟨d, []⟩ u ∧ u.live = [⟨0, 4096, false⟩] ∧ u.Sound := by
  obtain ⟨d, hmake, -, h⟩ := allocations_sound 7 (2 ^ 33 + 4096) (by decide)
  obtain ⟨u, hu, hlive⟩ := exists_reachable step Keeps
    ⟨(Dealer.make (kMemoryAlign * 2 ^ 7) (2 ^ 33 + 4096)).get (by decide +kernel), []⟩
    [.allocate 4096, .allocate 1, .allocate (-1)] (·.live = [⟨0, 4096, false⟩]) (by decide +kernel)
  have hget : (Dealer.make (kMemoryAlign * 2 ^ 7) (2 ^ 33 + 4096)).get (by decide +kernel) = d := by
    rw [Option.get_of_eq_some _ hmake]
  rw [hget] at hu
  exact ⟨d, u, hmake, hu, hlive, (h u hu).2.1⟩

/-- A request for `SIZE_MAX` bytes is rounded to none and gets all of them, on a heap of one page. -/
theorem size_max_handed_out : ((Dealer.make (kMemoryAlign * 2 ^ 7) 4096).bind fun d =>
    step ⟨d, []⟩ (.allocate (-1))).map (fun u => (u.dealer.mHeap, u.live)) =
      some (4096, [⟨0, 2 ^ 64 - 1, false⟩]) := by
  decide +kernel

end Users

end Binder.MemoryDealer
