import Binder.MemoryDealer.Live

/-! Which chunk a request gets, over any calls before it. Requests near `SIZE_MAX` round to zero units and leave empty
chunks behind, so the lists here may hold those. -/
namespace Binder.MemoryDealer

open Lib LinkedList List

namespace SimpleBestFitAllocator

variable {k n start fuel freed freed' : ℕ} {a a' : SimpleBestFitAllocator} {l l' : LinkedList Chunk}
  {e : ℕ × Chunk} {es xs ys : List (ℕ × Chunk)}

theorem merged_of_abuts (hl : l.Represents (xs ++ e :: ys)) (h : Abuts 0 ((xs ++ e :: ys).map Prod.snd) n)
    (hn : n < 2 ^ 28) (freed : ℕ) :
    ∃ l' freed' zs, Merged l e.1 freed l' freed' zs ys ∧ Abuts 0 ((zs ++ ys).map Prod.snd) n := by
  have hnode := hl.segment.node
  rw [Option.or_none, Option.or_none] at hnode
  by_cases hlast : ∀ p ∈ xs.getLast?, (p.2.free || e.2.size == 0) = false
  · refine ⟨l, freed, xs ++ [e], ⟨⟨_, hnode, mergeBack_keep hl hlast, rfl⟩, ?_⟩, ?_⟩
    · rwa [← append_cons]
    · rwa [← append_cons]
  · obtain ⟨xs, p, rfl⟩ : ∃ ps p, xs = ps ++ [p] := by
      rcases eq_nil_or_concat xs with rfl | ⟨ps, p, rfl⟩
      · simp at hlast
      · exact ⟨ps, p, concat_eq_append⟩
    have hmerge : (p.2.free || e.2.size == 0) = true := by
      by_contra hkeep
      apply hlast
      intro q hq
      obtain rfl : p = q := by simpa using hq
      exact Bool.eq_false_iff.mpr hkeep
    rw [← append_cons] at hl
    rw [← append_cons, map_append, map_cons, map_cons] at h
    have habuts := h.merge
    have hlt : p.2.size + e.2.size < 2 ^ 28 := by
      have hle := habuts.mem (mem_append_right _ mem_cons_self)
      dsimp only at hle
      omega
    obtain ⟨l', hback, hl'⟩ := mergeBack_join hl hmerge hlt freed
    refine ⟨l', p.1, xs ++ [(p.1, { p.2 with size := p.2.size + e.2.size })], ⟨⟨_, hnode, ?_, rfl⟩, ?_⟩, ?_⟩
    · simpa [endOf] using hback
    · rwa [← append_cons]
    · rw [← append_cons, map_append, map_cons]
      exact habuts

theorem mergeLoop_abuts (hl : l.Represents (xs ++ e :: ys)) (h : Abuts 0 ((xs ++ e :: ys).map Prod.snd) n)
    (hn : n < 2 ^ 28) (hloop : mergeLoop fuel l e.1 freed = some (freed', l')) :
    ∃ es', l'.Represents es' ∧ Abuts 0 (es'.map Prod.snd) n := by
  induction fuel generalizing l xs e ys freed with
  | zero => cases hloop
  | succ fuel ih =>
    obtain ⟨l₁, freed₁, zs, hmerged, habuts⟩ := merged_of_abuts hl h hn freed
    by_cases hhead : ∀ q ∈ (ys.map Prod.snd).head?, q.free = false
    · rw [hmerged.stop hhead] at hloop
      cases hloop
      exact ⟨zs ++ ys, hmerged.represents, habuts⟩
    · obtain ⟨q, ys, rfl⟩ : ∃ q qs, ys = q :: qs := by
        cases ys with
        | nil => simp at hhead
        | cons q qs => exact ⟨q, qs, rfl⟩
      have hq : q.2.free = true := by simpa using hhead
      rw [hmerged.next hq] at hloop
      exact ih hmerged.represents habuts hloop

theorem mem_of_scanList_startsAt (h : scanList (startsAt start) es none = some e) : e ∈ es := by
  induction es with
  | nil => cases h
  | cons d es ih =>
    simp only [scanList, startsAt] at h
    by_cases hd : d.2.start = start
    · simp only [hd, if_true] at h
      cases h
      exact mem_cons_self
    · simp only [hd, if_false] at h
      exact mem_cons_of_mem _ (ih h)

/-- Whatever is freed, the chunks still lie one behind the other. -/
theorem Chunked.dealloc {r : Option ℕ} (h : a.Chunked k n es) (hn : n < 2 ^ 28)
    (hdealloc : a.dealloc start = some (r, a')) : ∃ es', a'.Chunked k n es' := by
  unfold SimpleBestFitAllocator.dealloc at hdealloc
  simp only [h.represents.scan, Option.bind_eq_bind, Option.bind_some] at hdealloc
  cases hfound : scanList (startsAt (start / kMemoryAlign)) es none with
  | none =>
    rw [hfound] at hdealloc
    cases hdealloc
    exact ⟨es, h⟩
  | some e =>
    obtain ⟨xs, ys, rfl⟩ := append_of_mem (mem_of_scanList_startsAt hfound)
    obtain ⟨l₁, hset, h₁, -⟩ := h.represents.setVal { e.2 with free := true }
    have habuts : Abuts 0 ((xs ++ (e.1, { e.2 with free := true }) :: ys).map Prod.snd) n := by
      have hold := h.abuts
      rw [map_append, map_cons] at hold ⊢
      obtain ⟨m, hxs, hys⟩ := abuts_append.mp hold
      exact abuts_append.mpr ⟨m, hxs, hys⟩
    rw [hfound] at hdealloc
    simp only [hset, Option.bind_some] at hdealloc
    split_ifs at hdealloc with hfree
    obtain ⟨⟨freed, l₂⟩, hloop, hrest⟩ := Option.bind_eq_some_iff.mp hdealloc
    obtain ⟨node, -, hend⟩ := Option.bind_eq_some_iff.mp hrest
    obtain ⟨es', hes', habuts'⟩ := mergeLoop_abuts h₁ habuts hn hloop
    split_ifs at hend
    cases hend
    exact ⟨es', h.pagesize, hes', habuts'⟩

end SimpleBestFitAllocator

namespace Heap

open SimpleBestFitAllocator

variable {k n : ℕ} {s s' : Heap}

def Chunked (s : Heap) (k n : ℕ) : Prop := ∃ es, s.allocator.Chunked k n es

theorem Chunked.step {act : Action} (h : s.Chunked k n) (hk : k ≤ 28) (hn : n < 2 ^ 28)
    (hstep : s.step act = some s') : s'.Chunked k n := by
  obtain ⟨es, h⟩ := h
  cases act with
  | allocate size b =>
    rcases Nat.eq_zero_or_pos size with rfl | hpos
    · cases hstep
      exact ⟨es, h⟩
    · rcases h.alloc (b := b) hk hn hpos with ⟨halloc, -⟩ | ⟨xs, e, ys, ps, l', rfl, hfits, -, halloc, hl', hps⟩
      · simp only [Heap.step, SimpleBestFitAllocator.allocate, halloc, Option.map_some] at hstep
        cases hstep
        exact ⟨es, h⟩
      · simp only [Heap.step, SimpleBestFitAllocator.allocate, halloc, Option.map_some] at hstep
        cases hstep
        refine ⟨xs ++ ps ++ ys, h.pagesize, hl', ?_⟩
        have habuts := h.abuts
        rw [map_append, map_cons] at habuts
        rw [map_append, map_append, hps]
        exact habuts.carve (by have := hfits.2; omega)
  | deallocate =>
    obtain ⟨r, hr, rfl⟩ := Option.map_eq_some_iff.mp hstep
    obtain ⟨r', hdealloc, hr'⟩ := Option.bind_eq_some_iff.mp hr
    cases hr'
    exact h.dealloc hn hdealloc

/-- The request was carved out of a smallest chunk that fits, and the other chunks stayed. -/
def CarvedFrom (page size : ℕ) (b : Bool) (cs cs' : List Chunk) (offset : ℕ) : Prop :=
  ∃ xs c ys, cs = xs ++ c :: ys ∧ Fits page size b c ∧ (∀ d ∈ cs, Fits page size b d → c.size ≤ d.size) ∧
    offset = (c.start + gap page b c.start) * kMemoryAlign ∧
    cs' = xs ++ pieces c (gap page b c.start) size ++ ys

theorem CarvedFrom.freeSpace {page size offset : ℕ} {b : Bool} {cs cs' : List Chunk}
    (h : CarvedFrom page size b cs cs' offset) : freeSpace cs' + size = freeSpace cs := by
  obtain ⟨xs, c, ys, rfl, hfits, -, -, rfl⟩ := h
  have hfit : gap page b c.start + size ≤ c.size := by
    have := hfits.2
    omega
  have hpieces := freeSpace_pieces hfit
  rw [freeSpace_append, freeSpace_append, freeSpace_append, freeSpace_cons_free hfits.1]
  omega

/-- On a heap that is not empty and fits the bit-field, after any calls: a request fails exactly if no free chunk holds
it, and else it is carved out of a smallest one that does, with all other chunks as they were. -/
theorem alloc_best_fit (k size : ℕ) (hpos : 0 < heapSize (kMemoryAlign * 2 ^ k) size)
    (hsmall : heapSize (kMemoryAlign * 2 ^ k) size < 2 ^ 28 * kMemoryAlign) :
    ∃ a, make (kMemoryAlign * 2 ^ k) size = some a ∧
      ∀ s, Reachable step Free ⟨a, []⟩ s → ∃ es, s.allocator.mList.Represents es ∧
        ∀ request b, 0 < request → request ≤ 2 ^ 64 - 1 - 31 → ∃ r a', s.allocator.alloc request b = some (r, a') ∧
            (r = none ↔ ∀ c ∈ es.map Prod.snd, ¬ Fits (2 ^ k) (units request) b c) ∧
            (r = none → a' = s.allocator) ∧
            ∀ offset ∈ r, ∃ es', a'.mList.Represents es' ∧
              CarvedFrom (2 ^ k) (units request) b (es.map Prod.snd) (es'.map Prod.snd) offset ∧
              freeSpace (es'.map Prod.snd) + units request = freeSpace (es.map Prod.snd) := by
  obtain ⟨hk, hn⟩ := page_le_of_small hpos hsmall
  obtain ⟨a, hmake, -, hdivides⟩ := make_divides rfl hpos hsmall
  refine ⟨a, hmake, fun s hs => ?_⟩
  obtain ⟨es, h⟩ : s.Chunked k (heapSize (kMemoryAlign * 2 ^ k) size / kMemoryAlign) := by
    refine hs.invariant (Chunked · k (heapSize (kMemoryAlign * 2 ^ k) size / kMemoryAlign)) ?_ ?_
    · exact ⟨_, hdivides.chunked⟩
    · intro s act s' h _ hstep
      exact h.step hk hn hstep
  refine ⟨es, h.represents, fun request b hrequest hmax => ?_⟩
  have halloc := h.alloc (b := b) hk hn hrequest
  rw [rounded_eq_units hmax] at halloc
  rcases halloc with ⟨hnone, hno⟩ | ⟨xs, e, ys, ps, l', rfl, hfits, hleast, hsome, hl', hps⟩
  · refine ⟨none, _, hnone, iff_of_true rfl ?_, fun _ => rfl, nofun⟩
    intro c hc
    obtain ⟨e, he, rfl⟩ := mem_map.mp hc
    exact hno e he
  · refine ⟨_, _, hsome, iff_of_false nofun ?_, nofun, ?_⟩
    · intro hno
      exact hno e.2 (by simp) hfits
    · rintro offset ⟨⟩
      have hcarved : CarvedFrom (2 ^ k) (units request) b ((xs ++ e :: ys).map Prod.snd)
          ((xs ++ ps ++ ys).map Prod.snd) ((e.2.start + gap (2 ^ k) b e.2.start) * kMemoryAlign) := by
        refine ⟨xs.map Prod.snd, e.2, ys.map Prod.snd, by simp, hfits, ?_, rfl, ?_⟩
        · intro d hd hfit
          obtain ⟨e', he', rfl⟩ := mem_map.mp hd
          exact hleast e' he' hfit
        · rw [map_append, map_append, hps]
      exact ⟨_, hl', hcarved, hcarved.freeSpace⟩

/-- Three pages with an allocation between two free chunks. -/
theorem alloc_best_fit_pages : ∃ a s, make (kMemoryAlign * 2 ^ 7) 10000 = some a ∧
    Reachable step Free ⟨a, []⟩ s ∧ s.live = [⟨128, 10, false⟩] ∧
    ∃ es, s.allocator.mList.Represents es ∧ ∃ r a', s.allocator.alloc 5000 true = some (r, a') ∧
      (r = none ↔ ∀ c ∈ es.map Prod.snd, ¬ Fits (2 ^ 7) (units 5000) true c) := by
  obtain ⟨a, hmake, h⟩ := alloc_best_fit 7 10000 (by decide) (by decide)
  obtain ⟨s, hs, hlive⟩ := exists_reachable step Free ⟨(make (kMemoryAlign * 2 ^ 7) 10000).get (by decide), []⟩
    [.allocate 100 false, .allocate 10 false, .deallocate 0] (·.live = [⟨128, 10, false⟩]) (by decide)
  have hget : (make (kMemoryAlign * 2 ^ 7) 10000).get (by decide) = a := by
    rw [Option.get_of_eq_some _ hmake]
  rw [hget] at hs
  obtain ⟨es, hes, halloc⟩ := h s hs
  obtain ⟨r, a', hr, hnone, -⟩ := halloc 5000 true (by decide) (by decide)
  exact ⟨a, s, hmake, hs, hlive, es, hes, r, a', hr, hnone⟩

end Heap

end Binder.MemoryDealer
