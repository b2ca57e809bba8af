import Binder.MemoryDealer.Chunks
import Mathlib.Tactic.Linarith

/-! On a heap whose chunk sizes fit their bit-field the allocator's arithmetic does not wrap, and
its operations on the linked list are the ones on partitions. -/
namespace Binder.MemoryDealer

open Lib LinkedList List

def gap (page : ℕ) (pageAligned : Bool) (start : ℕ) : ℕ :=
  if pageAligned then (page - start % page) % page else 0

section Arithmetic

variable {k n start : ℕ} {x : ℤ}

theorem toSizeT_of_lt (h0 : 0 ≤ x) (h : x < 2 ^ 64) : (toSizeT x : ℤ) = x := by
  unfold toSizeT
  rw [Int.emod_eq_of_lt h0 h, Int.toNat_of_nonneg h0]

theorem toSizeT_natCast (h : n < 2 ^ 64) : toSizeT n = n := by
  have hcast := toSizeT_of_lt (Int.natCast_nonneg n) (by exact_mod_cast h)
  exact_mod_cast hcast

theorem toField_of_lt (h : n < 2 ^ 28) : toField n = n := Nat.mod_eq_of_lt h

theorem gap_lt (hp : 0 < n) (b : Bool) : gap n b start < n := by
  unfold gap
  split_ifs
  · exact Nat.mod_lt _ hp
  · exact hp

theorem dvd_add_gap (hp : 0 < n) (start : ℕ) : n ∣ start + gap n true start := by
  have hlt := Nat.mod_lt start hp
  rw [gap, if_pos rfl, Nat.dvd_iff_mod_eq_zero, Nat.add_mod, Nat.mod_mod]
  rcases Nat.eq_zero_or_pos (start % n) with h0 | h0
  · simp [h0]
  · rw [Nat.mod_eq_of_lt (Nat.sub_lt hp h0), Nat.add_sub_cancel' hlt.le, Nat.mod_self]

theorem mask_eq (hk : k ≤ 64) : toSizeT (-(start : ℤ)) &&& (2 ^ k - 1) = (2 ^ k - start % 2 ^ k) % 2 ^ k := by
  rw [Nat.and_two_pow_sub_one_eq_mod]
  have hdvd : (2 : ℤ) ^ k ∣ 2 ^ 64 := pow_dvd_pow 2 hk
  have hle : start % 2 ^ k ≤ 2 ^ k := (Nat.mod_lt _ (Nat.two_pow_pos k)).le
  have hnonneg : (0 : ℤ) ≤ -(start : ℤ) % 2 ^ 64 := Int.emod_nonneg _ (by norm_num)
  have hmask : ((toSizeT (-(start : ℤ)) % 2 ^ k : ℕ) : ℤ) = -(start : ℤ) % 2 ^ k := by
    rw [toSizeT, Int.natCast_emod, Int.toNat_of_nonneg hnonneg, Nat.cast_pow, Nat.cast_ofNat,
      Int.emod_emod_of_dvd _ hdvd]
  have hsum : (2 : ℤ) ^ k - start % 2 ^ k = -start + 2 ^ k * (1 + start / 2 ^ k) := by
    have hdiv := Int.emod_add_mul_ediv (start : ℤ) (2 ^ k)
    linarith
  have hgap : (((2 ^ k - start % 2 ^ k) % 2 ^ k : ℕ) : ℤ) = -(start : ℤ) % 2 ^ k := by
    push_cast [Nat.cast_sub hle]
    rw [hsum, Int.add_mul_emod_self_left]
  exact_mod_cast hmask.trans hgap.symm

theorem extra_eq (hk : k ≤ 28) (b : Bool) (start : ℕ) :
    SimpleBestFitAllocator.extra (kMemoryAlign * 2 ^ k) b start = gap (2 ^ k) b start := by
  have hlt : gap (2 ^ k) b start < 2 ^ 28 :=
    (gap_lt (Nat.two_pow_pos k) b).trans_le (Nat.pow_le_pow_right two_pos hk)
  unfold SimpleBestFitAllocator.extra gap at *
  rw [Nat.mul_div_cancel_left _ (by decide : 0 < kMemoryAlign), mask_eq (by omega)]
  split_ifs with hb
  · rw [if_pos hb] at hlt
    exact Int.bmod_eq_of_le_mul_two (by omega) (by omega)
  · rfl

theorem dvd_heapSize (k size : ℕ) :
    kMemoryAlign * 2 ^ k ∣ SimpleBestFitAllocator.heapSize (kMemoryAlign * 2 ^ k) size := by
  have hpage : kMemoryAlign * 2 ^ k = 2 ^ (k + 5) := by
    rw [pow_add, mul_comm]
    rfl
  rw [hpage, Nat.dvd_iff_mod_eq_zero, ← Nat.and_two_pow_sub_one_eq_mod,
    SimpleBestFitAllocator.heapSize, Nat.and_assoc]
  have hmask : toSizeT (-((2 ^ (k + 5) : ℕ) : ℤ)) &&& (2 ^ (k + 5) - 1) = 0 := by
    rcases Nat.lt_or_ge 64 (k + 5) with hk | hk
    · have hzero : toSizeT (-((2 ^ (k + 5) : ℕ) : ℤ)) = 0 := by
        have hdvd : (2 : ℤ) ^ 64 ∣ -((2 ^ (k + 5) : ℕ) : ℤ) := by
          apply Int.dvd_neg.mpr
          exact_mod_cast pow_dvd_pow 2 hk.le
        rw [toSizeT, Int.emod_eq_zero_of_dvd hdvd, Int.toNat_zero]
      rw [hzero, Nat.zero_and]
    · rw [mask_eq hk, Nat.mod_self, Nat.sub_zero, Nat.mod_self]
  rw [hmask, Nat.and_zero]

end Arithmetic

/-- A free chunk that holds `size` units after the alignment gap at its start. -/
def Fits (page size : ℕ) (pageAligned : Bool) (c : Chunk) : Prop :=
  c.free = true ∧ size + gap page pageAligned c.start ≤ c.size
deriving Decidable

namespace SimpleBestFitAllocator

section Search

variable {k size : ℕ} {b : Bool} {acc : Option (ℕ × Chunk)} {e : ℕ × Chunk} {es : List (ℕ × Chunk)}

theorem toSizeT_extra (hk : k ≤ 28) (hsize : size < 2 ^ 60) (b : Bool) (start : ℕ) :
    toSizeT (size + extra (kMemoryAlign * 2 ^ k) b start) = size + gap (2 ^ k) b start := by
  have hgap : gap (2 ^ k) b start < 2 ^ 28 :=
    (gap_lt (Nat.two_pow_pos k) b).trans_le (Nat.pow_le_pow_right two_pos hk)
  rw [extra_eq hk, ← Nat.cast_add]
  exact toSizeT_natCast (by omega)

/-- `r` is a smallest one of the chunks that fit, or `none` if none fits. -/
structure Best (page size : ℕ) (b : Bool) (es : List (ℕ × Chunk)) (r : Option (ℕ × Chunk)) :
    Prop where
  sound : ∀ a ∈ r, Fits page size b a.2 ∧ a ∈ es
  least : ∀ e ∈ es, Fits page size b e.2 → ∃ a ∈ r, a.2.size ≤ e.2.size

theorem bestFit_eq (hk : k ≤ 28) (hsize : size < 2 ^ 60) (acc : Option (ℕ × Chunk))
    (e : ℕ × Chunk) : bestFit (kMemoryAlign * 2 ^ k) size b acc e.1 e.2 = if Fits (2 ^ k) size b e.2 then
        (if acc.all fun best => e.2.size < best.2.size then some e else acc, e.2.size == size)
      else (acc, false) := by
  unfold bestFit
  dsimp only
  rw [toSizeT_extra hk hsize]
  exact if_congr (by simp [Fits]) rfl rfl

theorem Best.bestFit (hk : k ≤ 28) (hsize : size < 2 ^ 60) (h : Best (2 ^ k) size b es acc)
    (e : ℕ × Chunk) : Best (2 ^ k) size b (es ++ [e])
      (bestFit (kMemoryAlign * 2 ^ k) size b acc e.1 e.2).1 := by
  have hold : ∀ a ∈ acc, Fits (2 ^ k) size b a.2 ∧ a ∈ es ++ [e] := fun a ha =>
    ⟨(h.sound a ha).1, mem_append_left _ (h.sound a ha).2⟩
  rw [bestFit_eq hk hsize]
  split_ifs with hfits hall
  · refine ⟨?_, ?_⟩
    · rintro a ⟨⟩
      exact ⟨hfits, by simp⟩
    · intro d hd hfit
      refine ⟨e, rfl, ?_⟩
      rcases mem_append.mp hd with hd | hd
      · obtain ⟨a, ha, hle⟩ := h.least d hd hfit
        have hlt : e.2.size < a.2.size := by simpa [Option.mem_def.mp ha] using hall
        omega
      · rw [mem_singleton.mp hd]
  · refine ⟨hold, ?_⟩
    intro d hd hfit
    rcases mem_append.mp hd with hd | hd
    · exact h.least d hd hfit
    · obtain ⟨a, ha, hle⟩ : ∃ a, acc = some a ∧ a.2.size ≤ e.2.size := by
        simpa [Option.all_eq_true] using hall
      rw [mem_singleton.mp hd]
      exact ⟨a, ha, hle⟩
  · refine ⟨hold, ?_⟩
    intro d hd hfit
    rcases mem_append.mp hd with hd | hd
    · exact h.least d hd hfit
    · rw [mem_singleton.mp hd] at hfit
      exact absurd hfit hfits

theorem Best.append (h : Best (2 ^ k) size b es acc) (he : e ∈ es)
    (hfits : Fits (2 ^ k) size b e.2) (hexact : e.2.size = size) (ds : List (ℕ × Chunk)) :
    Best (2 ^ k) size b (es ++ ds) acc := by
  obtain ⟨a, ha, hle⟩ := h.least e he hfits
  refine ⟨fun d hd => ⟨(h.sound d hd).1, mem_append_left _ (h.sound d hd).2⟩, ?_⟩
  intro d hd hfit
  have hbig := hfit.2
  exact ⟨a, ha, by omega⟩

theorem Best.scanList (hk : k ≤ 28) (hsize : size < 2 ^ 60) (h : Best (2 ^ k) size b es acc)
    (ds : List (ℕ × Chunk)) : Best (2 ^ k) size b (es ++ ds)
      (scanList (SimpleBestFitAllocator.bestFit (kMemoryAlign * 2 ^ k) size b) ds acc) := by
  induction ds generalizing es acc with
  | nil => rwa [append_nil]
  | cons e ds ih =>
    have hnext := h.bestFit hk hsize e
    rw [append_cons]
    unfold LinkedList.scanList
    dsimp only
    split_ifs with hstop
    · have hfound : Fits (2 ^ k) size b e.2 ∧ e.2.size = size := by
        rw [bestFit_eq hk hsize] at hstop
        by_cases hfits : Fits (2 ^ k) size b e.2
        · rw [if_pos hfits] at hstop
          exact ⟨hfits, beq_iff_eq.mp hstop⟩
        · rw [if_neg hfits] at hstop
          cases hstop
      exact hnext.append (by simp) hfound.1 hfound.2 ds
    · exact ih hnext

end Search

section Carve

variable {k n size a g t : ℕ} {b : Bool} {c v : Chunk} {l : LinkedList Chunk}
  {xs ys : List (ℕ × Chunk)}

theorem splitBefore_represents (h : l.Represents (xs ++ (a, v) :: ys)) (hg : g < 2 ^ 28)
    (hv : v.start + g < 2 ^ 64) :
    ∃ l' ls, splitBefore l a v g = some ({ v with start := v.start + g }, l') ∧
      l'.Represents (xs ++ ls ++ (a, { v with start := v.start + g }) :: ys) ∧
      ls.map Prod.snd = if g = 0 then [] else [⟨v.start, g, true⟩] := by
  unfold splitBefore
  by_cases h0 : g = 0
  · subst h0
    exact ⟨l, [], by simp, by simpa using h, by simp⟩
  · have hstart : toSizeT (v.start + (g : ℤ)) = v.start + g := by
      rw [← Nat.cast_add, toSizeT_natCast hv]
    have hmake : Chunk.make v.start (toSizeT g) = ⟨v.start, g, true⟩ := by
      rw [toSizeT_natCast (by omega), Chunk.make, toField_of_lt hg]
    obtain ⟨hnew, hunlinked⟩ := h.new ⟨v.start, g, true⟩
    obtain ⟨l₁, hset, h₁, hkeep⟩ := hnew.setVal { v with start := v.start + g }
    obtain ⟨l₂, hins, h₂⟩ := h₁.insertBefore (hkeep _ _ hunlinked)
    refine ⟨l₂, [(l.fresh, ⟨v.start, g, true⟩)], ?_, by simpa using h₂, by simp [h0]⟩
    rw [if_pos (by exact_mod_cast h0)]
    simp only [hstart, hmake, hset, hins, Option.bind_eq_bind, Option.bind_some]

theorem splitAfter_represents (h : l.Represents (xs ++ (a, v) :: ys)) (ht : t < 2 ^ 28)
    (hv : v.start + v.size < 2 ^ 64) :
    ∃ l' rs, splitAfter l a v t = some l' ∧ l'.Represents (xs ++ (a, v) :: (rs ++ ys)) ∧
      rs.map Prod.snd = if t = 0 then [] else [⟨v.start + v.size, t, true⟩] := by
  unfold splitAfter
  by_cases h0 : t = 0
  · subst h0
    exact ⟨l, [], by simp, by simpa using h, by simp⟩
  · have hmake : Chunk.make (toSizeT (v.start + (v.size : ℤ))) (toSizeT t) = ⟨v.start + v.size, t, true⟩ := by
      rw [← Nat.cast_add, toSizeT_natCast hv, toSizeT_natCast (by omega), Chunk.make, toField_of_lt ht]
    obtain ⟨hnew, hunlinked⟩ := h.new ⟨v.start + v.size, t, true⟩
    obtain ⟨l₁, hins, h₁⟩ := hnew.insertAfter hunlinked
    refine ⟨l₁, [(l.fresh, ⟨v.start + v.size, t, true⟩)], ?_, by simpa using h₁, by simp [h0]⟩
    rw [if_pos (by exact_mod_cast Nat.pos_of_ne_zero h0)]
    simp only [hmake, hins]

/-- The chunk that was found is replaced by its pieces. -/
theorem carve_represents (hk : k ≤ 28) (h : l.Represents (xs ++ (a, c) :: ys))
    (hfits : Fits (2 ^ k) size b c) (hend : c.start + c.size < 2 ^ 28) :
    ∃ l' ps, carve (kMemoryAlign * 2 ^ k) l a c size b =
        some ((c.start + gap (2 ^ k) b c.start) * kMemoryAlign, l') ∧
      l'.Represents (xs ++ ps ++ ys) ∧
      ps.map Prod.snd = pieces c (gap (2 ^ k) b c.start) size := by
  have hfit := hfits.2
  obtain ⟨l₁, hset, h₁, -⟩ := h.setVal ⟨c.start, size, false⟩
  unfold carve
  rw [toField_of_lt (by omega : size < 2 ^ 28)]
  dsimp only
  rw [hset]
  by_cases hsplit : c.size > size
  · obtain ⟨l₂, ls, hbefore, h₂, hls⟩ := splitBefore_represents (g := gap (2 ^ k) b c.start) h₁
      (by omega) (by dsimp only; omega)
    obtain ⟨l₃, rs, hafter, h₃, hrs⟩ := splitAfter_represents
      (t := c.size - (gap (2 ^ k) b c.start + size)) h₂ (by omega) (by dsimp only; omega)
    have htail : toSSizeT (c.size - (size + extra (kMemoryAlign * 2 ^ k) b c.start)) =
        (c.size - (gap (2 ^ k) b c.start + size) : ℕ) := by
      rw [extra_eq hk, toSSizeT, Int.bmod_eq_of_le_mul_two (by omega) (by omega)]
      omega
    refine ⟨l₃, ls ++ (a, ⟨c.start + gap (2 ^ k) b c.start, size, false⟩) :: rs, ?_, ?_, ?_⟩
    · simp only [hsplit, if_true, Option.bind_eq_bind, Option.bind_some, extra_eq hk, hbefore]
      rw [← extra_eq hk, htail, hafter, Option.bind_some, toSizeT_natCast (by unfold kMemoryAlign; omega)]
    · simpa using h₃
    · have hexact : c.size - (gap (2 ^ k) b c.start + size) = 0 ↔ c.size = gap (2 ^ k) b c.start + size := by omega
      rw [map_append, map_cons, hls, hrs, pieces]
      simp only [hexact]
  · have hgap : gap (2 ^ k) b c.start = 0 := by omega
    refine ⟨l₁, [(a, ⟨c.start, size, false⟩)], ?_, by simpa using h₁, ?_⟩
    · rw [hgap]
      simp only [hsplit, if_false, Option.bind_eq_bind, Option.bind_some, Nat.add_zero]
      rw [toSizeT_natCast (by unfold kMemoryAlign; omega)]
    · have hsize : c.size = size := by omega
      simp [pieces, hgap, hsize]

end Carve

section Merge

variable {n cur freed freed' fuel : ℕ} {l l' : LinkedList Chunk}
  {p e g q : ℕ × Chunk} {xs ys zs : List (ℕ × Chunk)}

/-- A chunk that is not empty and does not follow a free one stays. -/
theorem mergeBack_keep (h : l.Represents (xs ++ e :: ys))
    (hlast : ∀ p ∈ xs.getLast?, (p.2.free || e.2.size == 0) = false) :
    mergeBack l e.1 ⟨e.2, endOf xs, startOf ys⟩ freed = some (freed, l) := by
  rcases eq_nil_or_concat xs with rfl | ⟨xs, p, rfl⟩
  · rfl
  · have hend : endOf (xs ++ [p]) = some p.1 := by simp [endOf]
    have hp : (p.2.free || e.2.size == 0) = false := hlast p (by simp)
    rw [concat_eq_append, hend, mergeBack]
    rw [concat_eq_append, append_assoc] at h
    have hnode := h.segment.node
    simp only [hnode, hp, Option.bind_eq_bind, Option.bind_some, Bool.false_eq_true, if_false]

/-- A chunk goes into the chunk before it if that is free, or if it is empty itself. -/
theorem mergeBack_join (h : l.Represents (xs ++ p :: e :: ys))
    (hmerge : (p.2.free || e.2.size == 0) = true) (hlt : p.2.size + e.2.size < 2 ^ 28) (freed : ℕ) :
    ∃ l', mergeBack l e.1 ⟨e.2, some p.1, startOf ys⟩ freed = some (p.1, l') ∧
      l'.Represents (xs ++ (p.1, { p.2 with size := p.2.size + e.2.size }) :: ys) := by
  have hnode := h.segment.node
  obtain ⟨l₁, hset, h₁, -⟩ := h.setVal { p.2 with size := p.2.size + e.2.size }
  rw [append_cons] at h₁
  obtain ⟨l₂, hremove, h₂⟩ := h₁.remove
  refine ⟨l₂.delete e.1, ?_, by rwa [append_cons]⟩
  simp only [mergeBack, hnode, hmerge, toField_of_lt hlt, hset, hremove, Option.bind_eq_bind,
    Option.bind_some, if_true]

/-- An iteration whose merge has led to `l'`; `ys` stands after the chunk it looked at. -/
structure Merged (l : LinkedList Chunk) (cur freed : ℕ) (l' : LinkedList Chunk) (freed' : ℕ)
    (zs ys : List (ℕ × Chunk)) : Prop where
  node : ∃ node, l.nodes cur = some node ∧ mergeBack l cur node freed = some (freed', l') ∧ node.next = startOf ys
  represents : l'.Represents (zs ++ ys)

theorem Merged.stop (h : Merged l cur freed l' freed' zs ys)
    (hhead : ∀ q ∈ (ys.map Prod.snd).head?, q.free = false) :
    mergeLoop (fuel + 1) l cur freed = some (freed', l') := by
  obtain ⟨node, hnode, hback, hnext⟩ := h.node
  simp only [mergeLoop, hnode, hback, hnext, Option.bind_eq_bind, Option.bind_some]
  cases ys with
  | nil => rfl
  | cons q =>
    have hq := h.represents.segment.node
    have hused : q.2.free = false := hhead q.2 rfl
    simp [startOf, hq, hused]

theorem Merged.next (h : Merged l cur freed l' freed' zs (q :: ys)) (hq : q.2.free = true) :
    mergeLoop (fuel + 1) l cur freed = mergeLoop fuel l' q.1 freed' := by
  obtain ⟨node, hnode, hback, hnext⟩ := h.node
  have hnode' := h.represents.segment.node
  simp [mergeLoop, hnode, hback, hnext, startOf, hnode', hq]

/-- The first merge has made the chunk `g` free; the loop takes in the one after it. -/
theorem Merged.finish (h : Merged l cur freed l' g.1 (zs ++ [g]) ys) (hn : n < 2 ^ 28)
    (hg : Loose n (zs.map Prod.snd) g.2 (ys.map Prod.snd)) (hfuel : ys.length < fuel) :
    ∃ l'' v rs, mergeLoop fuel l cur freed = some (g.1, l'') ∧
      l''.Represents (zs ++ (g.1, v) :: rs) ∧ v.free = true ∧
      Partition n ((zs ++ (g.1, v) :: rs).map Prod.snd) ∧
      allocated (rs.map Prod.snd) = allocated (ys.map Prod.snd) := by
  have hrep := h.represents
  rw [← append_cons] at hrep
  obtain ⟨fuel, rfl⟩ := Nat.exists_eq_add_one_of_ne_zero (Nat.ne_zero_of_lt hfuel)
  by_cases hhead : ∀ q ∈ (ys.map Prod.snd).head?, q.free = false
  · refine ⟨l', g.2, ys, h.stop hhead, hrep, hg.free, ?_, rfl⟩
    rw [map_append]
    exact hg.partition hhead
  · obtain ⟨q, ys, rfl⟩ : ∃ q qs, ys = q :: qs := by
      cases ys with
      | nil => simp at hhead
      | cons q qs => exact ⟨q, qs, rfl⟩
    rw [length_cons, Nat.add_lt_add_iff_right] at hfuel
    obtain ⟨fuel, rfl⟩ := Nat.exists_eq_add_one_of_ne_zero (Nat.ne_zero_of_lt hfuel)
    have hq : q.2.free = true := by simpa using hhead
    have hjoin := hg.join hq
    have hle : g.2.size + q.2.size < 2 ^ 28 := by
      obtain ⟨-, -, hend⟩ := hjoin.tiles.mem (mem_append_right _ mem_cons_self)
      dsimp only at hend
      omega
    obtain ⟨l'', hback, hrep''⟩ := mergeBack_join hrep (by rw [hg.free, Bool.true_or]) hle g.1
    have hmerged : Merged l' q.1 g.1 l'' g.1
        (zs ++ [(g.1, { g.2 with size := g.2.size + q.2.size })]) ys := by
      refine ⟨⟨_, ?_, hback, rfl⟩, by rwa [← append_cons]⟩
      have hnode := h.represents.segment.node
      simpa [endOf] using hnode
    refine ⟨l'', _, ys, ?_, hrep'', hg.free, by rwa [map_append], ?_⟩
    · rw [h.next hq]
      apply hmerged.stop
      intro d hd
      have hsep := (separated_cons.mp hg.right).1 d hd
      simpa [hq] using hsep
    · exact (allocated_cons_free hq).symm

end Merge

/-- The chunks of the allocator's list lie one behind the other in a heap of `n` units with pages of `2 ^ k`. -/
structure Chunked (a : SimpleBestFitAllocator) (k n : ℕ) (es : List (ℕ × Chunk)) : Prop where
  pagesize : a.pagesize = kMemoryAlign * 2 ^ k
  represents : a.mList.Represents es
  abuts : Abuts 0 (es.map Prod.snd) n

/-- The chunks of the allocator's list partition a heap of `n` units with pages of `2 ^ k`. -/
structure Divides (a : SimpleBestFitAllocator) (k n : ℕ) (es : List (ℕ × Chunk)) : Prop where
  pagesize : a.pagesize = kMemoryAlign * 2 ^ k
  represents : a.mList.Represents es
  partition : Partition n (es.map Prod.snd)

section Operations

variable {k n size : ℕ} {b : Bool} {a : SimpleBestFitAllocator} {es : List (ℕ × Chunk)}

def units (size : ℕ) : ℕ := (size + kMemoryAlign - 1) / kMemoryAlign

theorem Divides.lt {e : ℕ × Chunk} (h : a.Divides k n es) (hn : n < 2 ^ 28) (he : e ∈ es) :
    0 < e.2.size ∧ e.2.start + e.2.size < 2 ^ 28 := by
  obtain ⟨-, hpos, hle⟩ := h.partition.tiles.mem (mem_map_of_mem he)
  exact ⟨hpos, by omega⟩

theorem Divides.chunked (h : a.Divides k n es) : a.Chunked k n es :=
  ⟨h.pagesize, h.represents, h.partition.tiles.abuts⟩

/-- The size in units as `alloc` computes it. -/
def rounded (size : ℕ) : ℕ := toSizeT (size + kMemoryAlign - 1) / kMemoryAlign

theorem rounded_lt (size : ℕ) : rounded size < 2 ^ 60 := by
  unfold rounded toSizeT kMemoryAlign
  omega

theorem rounded_eq_units (hmax : size ≤ 2 ^ 64 - 1 - 31) : rounded size = units size := by
  have hcast : (size : ℤ) + kMemoryAlign - 1 = (size + kMemoryAlign - 1 : ℕ) := by
    unfold kMemoryAlign
    omega
  rw [rounded, hcast, toSizeT_natCast (by unfold kMemoryAlign; omega), units]

theorem Chunked.alloc_eq (h : a.Chunked k n es) (hpos : 0 < size) :
    a.alloc size b = match scanList (bestFit (kMemoryAlign * 2 ^ k) (rounded size) b) es none with
      | none => some (none, a)
      | some e => (carve (kMemoryAlign * 2 ^ k) a.mList e.1 e.2 (rounded size) b).bind fun r =>
        some (some r.1, { a with mList := r.2 }) := by
  unfold SimpleBestFitAllocator.alloc
  rw [if_neg (Nat.ne_of_gt hpos)]
  dsimp only
  rw [h.represents.scan, ← h.pagesize, ← rounded]
  cases scanList (bestFit a.pagesize (rounded size) b) es none <;> rfl

theorem make_represents (pagesize size : ℕ) : ∃ l, make pagesize size = some ⟨pagesize, l, heapSize pagesize size⟩ ∧
      l.Represents [(0, Chunk.make 0 (heapSize pagesize size / kMemoryAlign))] := by
  obtain ⟨l, hinsert, hl⟩ := insertHead_empty (Chunk.make 0 (heapSize pagesize size / kMemoryAlign))
  refine ⟨l, ?_, hl⟩
  rw [make]
  exact congrArg (Option.bind · _) hinsert

theorem divides_singleton {l : LinkedList Chunk} (hn : 0 < n) (hl : l.Represents [(0, ⟨0, n, true⟩)]) (heap : ℕ) :
    Divides ⟨kMemoryAlign * 2 ^ k, l, heap⟩ k n [(0, ⟨0, n, true⟩)] := by
  refine ⟨rfl, hl, ⟨rfl, hn, ?_⟩, isChain_singleton _⟩
  simp [Tiles]

theorem make_divides {heap : ℕ} (hheap : heapSize (kMemoryAlign * 2 ^ k) size = heap)
    (hpos : 0 < heap) (hsmall : heap < 2 ^ 28 * kMemoryAlign) :
    ∃ a, make (kMemoryAlign * 2 ^ k) size = some a ∧ a.mHeapSize = heap ∧
      a.Divides k (heap / kMemoryAlign) [(0, ⟨0, heap / kMemoryAlign, true⟩)] := by
  have hlt : heap / kMemoryAlign < 2 ^ 28 := (Nat.div_lt_iff_lt_mul (by decide)).mpr hsmall
  have hunits : 0 < heap / kMemoryAlign := by
    have hdvd : kMemoryAlign ∣ heap := (Dvd.intro _ rfl).trans (hheap ▸ dvd_heapSize k size)
    exact Nat.div_pos (Nat.le_of_dvd hpos hdvd) (by decide)
  obtain ⟨l, hmake, hl⟩ := make_represents (kMemoryAlign * 2 ^ k) size
  rw [hheap, Chunk.make, toField_of_lt hlt] at hl
  exact ⟨_, hmake, hheap, divides_singleton hunits hl _⟩

/-- `alloc` fails if no chunk fits, and else carves the request out of a smallest one that does. -/
theorem Chunked.alloc (h : a.Chunked k n es) (hk : k ≤ 28) (hn : n < 2 ^ 28) (hpos : 0 < size) :
    (a.alloc size b = some (none, a) ∧ ∀ e ∈ es, ¬ Fits (2 ^ k) (rounded size) b e.2) ∨
      ∃ xs e ys ps l', es = xs ++ e :: ys ∧ Fits (2 ^ k) (rounded size) b e.2 ∧
        (∀ d ∈ es, Fits (2 ^ k) (rounded size) b d.2 → e.2.size ≤ d.2.size) ∧
        a.alloc size b = some (some ((e.2.start + gap (2 ^ k) b e.2.start) * kMemoryAlign),
          { a with mList := l' }) ∧
        l'.Represents (xs ++ ps ++ ys) ∧
        ps.map Prod.snd = pieces e.2 (gap (2 ^ k) b e.2.start) (rounded size) := by
  have hempty : Best (2 ^ k) (rounded size) b [] none := ⟨by simp, by simp⟩
  have hbest := hempty.scanList hk (rounded_lt size) es
  rw [h.alloc_eq hpos]
  generalize scanList (bestFit (kMemoryAlign * 2 ^ k) (rounded size) b) es none = found at hbest
  cases found with
  | none =>
    refine .inl ⟨rfl, ?_⟩
    intro e he hfits
    obtain ⟨d, hd, -⟩ := hbest.least e he hfits
    cases hd
  | some e =>
    obtain ⟨hfits, hmem⟩ := hbest.sound e rfl
    have hleast : ∀ d ∈ es, Fits (2 ^ k) (rounded size) b d.2 → e.2.size ≤ d.2.size := by
      intro d hd hfit
      obtain ⟨_, ⟨⟩, hle⟩ := hbest.least d hd hfit
      exact hle
    obtain ⟨xs, ys, rfl⟩ := append_of_mem hmem
    obtain ⟨l', ps, hcarve, hl', hps⟩ :=
      carve_represents hk h.represents hfits
        ((h.abuts.mem (mem_map_of_mem hmem)).trans_lt hn)
    refine .inr ⟨xs, e, ys, ps, l', rfl, hfits, hleast, ?_, hl', hps⟩
    simp only [hcarve, Option.bind_some]

variable {xs ys : List (ℕ × Chunk)}

theorem scanList_startsAt {start : ℕ} {e : ℕ × Chunk}
    (hxs : ∀ x ∈ xs, x.2.start ≠ start) (he : e.2.start = start) (acc : Option (ℕ × Chunk))
    (ys : List (ℕ × Chunk)) : scanList (startsAt start) (xs ++ e :: ys) acc = some e := by
  induction xs with
  | nil => simp [scanList, startsAt, he]
  | cons x xs ih =>
    have hne := hxs x mem_cons_self
    simp only [cons_append, scanList, startsAt, if_neg hne]
    exact ih fun y hy => hxs y (mem_cons_of_mem _ hy)

theorem Divides.start_ne {e : ℕ × Chunk} (h : a.Divides k n (xs ++ e :: ys)) : ∀ x ∈ xs, x.2.start ≠ e.2.start := by
  intro x hx
  have htiles := h.partition.tiles
  rw [map_append] at htiles
  obtain ⟨m, hxs, hstart, -⟩ := tiles_append.mp htiles
  obtain ⟨-, hpos, hle⟩ := hxs.mem (mem_map_of_mem hx)
  omega

/-- The first iteration of the loop that merges freed blocks. -/
theorem Divides.merged {e : ℕ × Chunk} {l : LinkedList Chunk} (h : a.Divides k n (xs ++ e :: ys)) (hn : n < 2 ^ 28)
    (hl : l.Represents (xs ++ (e.1, { e.2 with free := true }) :: ys)) :
    ∃ l' zs g, Merged l e.1 e.1 l' g.1 (zs ++ [g]) ys ∧ Loose n (zs.map Prod.snd) g.2 (ys.map Prod.snd) ∧
      allocated (zs.map Prod.snd) = allocated (xs.map Prod.snd) := by
  have hpart := h.partition
  have hnode := hl.segment.node
  have hmem : e ∈ xs ++ e :: ys := mem_append_right _ mem_cons_self
  rw [map_append, map_cons] at hpart
  rw [Option.or_none, Option.or_none] at hnode
  by_cases hlast : ∀ p ∈ (xs.map Prod.snd).getLast?, p.free = false
  · refine ⟨l, xs, (e.1, { e.2 with free := true }), ⟨⟨_, hnode, ?_, rfl⟩, ?_⟩, hpart.release hlast, rfl⟩
    · refine mergeBack_keep hl fun p hp => ?_
      have hused : p.2.free = false := hlast p.2 (by simp [List.getLast?_map, Option.mem_def.mp hp])
      simp [hused, Nat.ne_of_gt (h.lt hn hmem).1]
    · rwa [← append_cons]
  · obtain ⟨xs, p, rfl⟩ : ∃ ps p, xs = ps ++ [p] := by
      rcases eq_nil_or_concat xs with rfl | ⟨ps, p, rfl⟩
      · simp at hlast
      · exact ⟨ps, p, concat_eq_append⟩
    have hp : p.2.free = true := by simpa using hlast
    rw [← append_cons] at hl
    rw [map_append, map_singleton, ← append_cons] at hpart
    have hloose := hpart.releaseInto hp
    have hle : p.2.size + e.2.size < 2 ^ 28 := by
      obtain ⟨-, -, hend⟩ := hloose.tiles.mem (mem_append_right _ mem_cons_self)
      dsimp only at hend
      omega
    obtain ⟨l', hback, hl'⟩ := mergeBack_join hl (by rw [hp, Bool.true_or]) hle e.1
    refine ⟨l', xs, (p.1, { p.2 with size := p.2.size + e.2.size }), ⟨⟨_, hnode, ?_, rfl⟩, ?_⟩, hloose, ?_⟩
    · simpa [endOf] using hback
    · rwa [← append_cons]
    · simp [allocated, hp]

/-- Freeing an allocated chunk leaves the other allocated chunks and a partition. -/
theorem Divides.dealloc {e : ℕ × Chunk}
    (h : a.Divides k n (xs ++ e :: ys)) (hn : n < 2 ^ 28) (he : e.2.free = false) :
    ∃ freed l' es', a.dealloc (e.2.start * kMemoryAlign) = some (some freed, { a with mList := l' }) ∧
      Divides { a with mList := l' } k n es' ∧
      allocated (es'.map Prod.snd) = allocated (xs.map Prod.snd) ++ allocated (ys.map Prod.snd) := by
  obtain ⟨l₁, hset, h₁, -⟩ := h.represents.setVal { e.2 with free := true }
  obtain ⟨l₂, zs, g, hmerged, hloose, hzs⟩ := h.merged hn h₁
  have hfuel : ys.length < l₁.fresh := by
    have hlength := h₁.length_le
    simp at hlength
    omega
  obtain ⟨l₃, v, rs, hloop, h₃, hv, hpart, hrs⟩ := hmerged.finish hn hloose hfuel
  have hnode := h₃.segment.node
  refine ⟨g.1, l₃, _, ?_, ⟨h.pagesize, h₃, hpart⟩, ?_⟩
  · have hstart : e.2.start * kMemoryAlign / kMemoryAlign = e.2.start :=
      Nat.mul_div_cancel _ (by decide)
    unfold SimpleBestFitAllocator.dealloc
    simp only [hstart, h.represents.scan, scanList_startsAt h.start_ne rfl, he, hset, hloop, hnode,
      hv, Option.bind_eq_bind, Option.bind_some]
    rfl
  · rw [map_append, map_cons, allocated_append, allocated_cons_free hv, hzs, hrs]

end Operations

end SimpleBestFitAllocator

end Binder.MemoryDealer
