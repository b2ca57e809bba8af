import Binder.Parcel.BundleWrite
import Binder.Parcel.Token

/-! A bundle that was written is read back. -/
namespace Binder.Parcel
open Binder.Lib Fallible List

namespace PersistableBundle

variable {b v : PersistableBundle} {nested : PersistableBundle → Read PersistableBundle}

/-! ### The bytes of a bundle -/

abbrev Entry := (t : ValType) × String16 × t.Val

def valueBytes : (t : ValType) → t.Val → List UInt8
  | .plain t, v => (plainChunks t v).flatten
  | .persistableBundle, v => v.task.bytes

def Entry.bytes (e : Entry) : List UInt8 :=
  stringBytes e.2.1 ++ (wordBytes (.ofInt 32 e.1.code) ++ valueBytes e.1 e.2.2)

def allEntries (b : PersistableBundle) : List Entry := ValType.all.flatMap fun t => (b.entries t).map (Sigma.mk t)

def innerBytes (b : PersistableBundle) : List UInt8 :=
  wordBytes (.ofNat 32 b.size) ++ b.allEntries.flatMap Entry.bytes

theorem length_allEntries (b : PersistableBundle) : b.allEntries.length = b.size := by
  simp [allEntries, size, length_flatMap]

theorem bytes_entryTask (t : ValType) (key : String16) (value : Task) :
    (entryTask t key value).bytes = stringBytes key ++ (wordBytes (.ofInt 32 t.code) ++ value.bytes) := by
  unfold entryTask
  rw [Task.bytes_seq, Task.bytes_seq]
  rfl

theorem bytes_bundlesTask (es : List (String16 × PersistableBundle)) :
    (bundlesTask es).bytes = es.flatMap fun e => Entry.bytes ⟨.persistableBundle, e⟩ := by
  induction es with
  | nil => rfl
  | cons e es ih =>
    unfold bundlesTask
    rw [Task.bytes_seq, bytes_entryTask, flatMap_cons, ← ih]
    rfl

theorem bytes_plainsTask (b : PersistableBundle) : b.plainsTask.bytes =
    PlainType.all.flatMap fun t => (b.entries (.plain t)).flatMap fun e => Entry.bytes ⟨.plain t, e⟩ := by
  unfold plainsTask
  simp only [Task.bytes_each, bytes_entryTask]
  rfl

theorem bytes_innerTask (b : PersistableBundle) :
    (b.innerTask (bundlesTask b.mPersistableBundleMap)).bytes = b.innerBytes := by
  unfold innerTask
  rw [Task.bytes_guarded, Task.bytes_seq, Task.bytes_seq, Task.bytes_word, bytes_plainsTask, bytes_bundlesTask,
    innerBytes, allEntries, flatMap_assoc, ValType.all_eq]
  simp only [flatMap_map, flatMap_append, flatMap_singleton]
  rfl

theorem bytes_task (b : PersistableBundle) : b.task.bytes = if b.empty then wordBytes 0
    else wordBytes (.ofNat 32 b.innerBytes.length) ++ (wordBytes bundleMagicNative ++ b.innerBytes) := by
  rw [task_eq]
  split_ifs
  · rfl
  · rw [Task.bytes_sized, bytes_innerTask]

/-! ### Reading the entries -/

def add (b : PersistableBundle) (e : Entry) : PersistableBundle :=
  b.withEntries e.1 (assign (b.entries e.1) e.2.1 e.2.2)

theorem plain_ty (t : PlainType) : t.ty.Plain := by
  cases t <;> trivial

theorem reads_plain (t : PlainType) (v : t.Val) : Reads (readPlain t.ty) (valueBytes (.plain t) v) v :=
  fun _ hr hh hc => readData_holds (fun i => i.elim) t.ty (plain_ty t) v hr hh hc.clearFrom

theorem typeOf_code (t : ValType) : Fill.typeOf (BitVec.ofInt 32 t.code).toInt = some t := by
  have hall : ∀ t ∈ ValType.all, Fill.typeOf (BitVec.ofInt 32 t.code).toInt = some t := by decide
  exact hall t (ValType.mem_all t)

/-- A nested bundle is read by `nested`, which finds no bundle under the key. -/
theorem reads_readEntry {e : Entry} (hfresh : b.get e.1 e.2.1 = none)
    (hnested : ∀ key v, e = ⟨.persistableBundle, key, v⟩ → Reads (nested {}) v.task.bytes v) :
    Reads (readEntry nested b) e.bytes (b.add e) := by
  obtain ⟨t, key, v⟩ := e
  rw [readEntry_eq]
  refine (reads_readString16 key).bind ((reads_readInt32 _).bind ?_)
  rw [typeOf_code]
  cases t with
  | plain t => exact (reads_plain t v).map fun v => b.add ⟨.plain t, key, v⟩
  | persistableBundle =>
    have hget : b.get .persistableBundle key = none := hfresh
    dsimp only
    rw [hget]
    exact (hnested key v rfl).map fun v => b.add ⟨.persistableBundle, key, v⟩

def Entry.Apart (e e' : Entry) : Prop := e.1 = e'.1 → e.2.1 ≠ e'.2.1

theorem get_add {e e' : Entry} (h : e.Apart e') : (b.add e).get e'.1 e'.2.1 = b.get e'.1 e'.2.1 := by
  obtain ⟨t, key, v⟩ := e
  obtain ⟨t', key', v'⟩ := e'
  by_cases ht : t = t'
  · subst ht
    exact get_assign_ne (h rfl).symm
  · exact get_withEntries_ne (Ne.symm ht) _ _

theorem reads_readEntries {es : List Entry} (hfresh : ∀ e ∈ es, b.get e.1 e.2.1 = none)
    (hapart : es.Pairwise Entry.Apart)
    (hnested : ∀ key v, ⟨.persistableBundle, key, v⟩ ∈ es → Reads (nested {}) v.task.bytes v) :
    Reads (readEntries nested es.length b) (es.flatMap Entry.bytes) (es.foldl add b) := by
  induction es generalizing b with
  | nil => exact reads_pure b
  | cons e es ih =>
    obtain ⟨hhead, hapart⟩ := pairwise_cons.mp hapart
    have hentry : Reads (readEntry nested b) e.bytes (b.add e) := by
      refine reads_readEntry (hfresh e mem_cons_self) fun key v he => ?_
      exact hnested key v (he ▸ mem_cons_self)
    refine hentry.bind (ih (fun e' he' => ?_) hapart fun key v he => hnested key v (mem_cons_of_mem _ he))
    rw [get_add (hhead e' he')]
    exact hfresh e' (mem_cons_of_mem _ he')

/-! ### The entries that were read -/

theorem apart_allEntries (hb : b.Sorted) : b.allEntries.Pairwise Entry.Apart := by
  unfold allEntries
  rw [pairwise_flatMap]
  refine ⟨fun t _ => ?_, ValType.nodup_all.imp fun {t t'} hne e he e' he' heq => ?_⟩
  · have hnodup := (hb.entries t).nodup
    rw [List.Nodup, pairwise_map] at hnodup
    refine pairwise_map.mpr (hnodup.imp fun {a c} hne => ?_)
    intro _
    exact hne
  · obtain ⟨_, -, rfl⟩ := mem_map.mp he
    obtain ⟨_, -, rfl⟩ := mem_map.mp he'
    exact absurd heq hne

theorem withEntries_entries (b : PersistableBundle) (t : ValType) : b.withEntries t (b.entries t) = b := by
  apply ext_entries
  intro t'
  by_cases ht : t' = t
  · subst ht
    exact entries_withEntries ..
  · exact entries_withEntries_ne ht _

theorem withEntries_withEntries (b : PersistableBundle) (t : ValType) (m m' : List (String16 × t.Val)) :
    (b.withEntries t m).withEntries t m' = b.withEntries t m' := by
  apply ext_entries
  intro t'
  by_cases ht : t' = t
  · subst ht
    rw [entries_withEntries, entries_withEntries]
  · rw [entries_withEntries_ne ht, entries_withEntries_ne ht, entries_withEntries_ne ht]

theorem foldl_add_map (b : PersistableBundle) (t : ValType) (es : List (String16 × t.Val)) :
    (es.map (Sigma.mk t)).foldl add b =
      b.withEntries t (es.foldl (fun m e => OrdMap.insertEntry e.1 e.2 m) (b.entries t)) := by
  induction es generalizing b with
  | nil => exact (withEntries_entries b t).symm
  | cons e es ih =>
    rw [map_cons, foldl_cons, foldl_cons, ih]
    unfold add
    rw [withEntries_withEntries, entries_withEntries]
    rfl

/-- The entries that are added type by type stand as they were in the bundle that lists them. -/
theorem entries_foldl_add (hb : b.Sorted) {ts : List ValType} (hts : ts.Nodup) (c : PersistableBundle)
    (hc : ∀ t ∈ ts, c.entries t = []) (t : ValType) :
    ((ts.flatMap fun t => (b.entries t).map (Sigma.mk t)).foldl add c).entries t =
      if t ∈ ts then b.entries t else c.entries t := by
  induction ts generalizing c with
  | nil => rfl
  | cons t₀ ts ih =>
    obtain ⟨hnot, hts⟩ := nodup_cons.mp hts
    have hsorted : (b.entries t₀).foldl (fun m e => OrdMap.insertEntry e.1 e.2 m) [] = b.entries t₀ :=
      OrdMap.SortedEntries.foldl_insertEntry (show OrdMap.SortedEntries ([] ++ b.entries t₀) from hb.entries t₀)
    rw [flatMap_cons, foldl_append, foldl_add_map, hc t₀ mem_cons_self, hsorted]
    rw [ih hts _ fun t ht => ?_]
    · by_cases ht : t = t₀
      · subst ht
        simp [hnot]
      · rw [entries_withEntries_ne ht]
        simp [ht]
    · have hne : t ≠ t₀ := fun h => hnot (h ▸ ht)
      rw [entries_withEntries_ne hne]
      exact hc t (mem_cons_of_mem _ ht)

theorem foldl_add_allEntries (hb : b.Sorted) : b.allEntries.foldl add {} = b := by
  apply ext_entries
  intro t
  rw [allEntries, entries_foldl_add hb ValType.nodup_all {} fun t _ => entries_empty t, if_pos (ValType.mem_all t)]

/-! ### Reading a bundle -/

theorem length_bytes_le {e : Entry} (he : e ∈ b.allEntries) : e.bytes.length ≤ b.innerBytes.length := by
  obtain ⟨before, behind, heq⟩ := append_of_mem he
  rw [innerBytes, heq, flatMap_append, flatMap_cons]
  simp only [length_append]
  omega

theorem size_le_length_innerBytes (b : PersistableBundle) : b.size ≤ b.innerBytes.length := by
  have hentry (e : Entry) : 0 < e.bytes.length := by
    rw [Entry.bytes, length_append, length_stringBytes]
    omega
  have hle := length_le_length_flatMap hentry b.allEntries
  rw [innerBytes, length_append, ← length_allEntries]
  omega

theorem eq_empty_of_empty (hb : b.Sorted) (h : b.empty = true) : b = {} := by
  have hsize : b.allEntries.length = 0 := (length_allEntries b).trans (beq_iff_eq.mp h)
  rw [← foldl_add_allEntries hb, eq_nil_of_length_eq_zero hsize]
  rfl

theorem Sorted.of_mem_allEntries {key : String16} (hb : b.Sorted) (h : ⟨.persistableBundle, key, v⟩ ∈ b.allEntries) :
    v.Sorted := by
  obtain ⟨t, -, ht⟩ := mem_flatMap.mp h
  obtain ⟨e, he, heq⟩ := mem_map.mp ht
  cases heq
  exact hb.nested ((OrdMap.lookup_eq_some_iff (hb.entries .persistableBundle)).mpr he)

theorem reads_readFromParcelInner {length : ℕ} (hb : b.Sorted) (hlength : length ≠ 0)
    (hmax : b.innerBytes.length ≤ int32Max)
    (hnested : ∀ key v, ⟨.persistableBundle, key, v⟩ ∈ b.allEntries → Reads (nested {}) v.task.bytes v) :
    Reads (readFromParcelInner nested length {}) (wordBytes bundleMagicNative ++ b.innerBytes) b := by
  have hsize : (BitVec.ofNat 32 b.size).toInt.toNat = b.allEntries.length := by
    rw [toInt_ofNat_of_le ((size_le_length_innerBytes b).trans hmax), Int.toNat_natCast, length_allEntries]
  have hentries := reads_readEntries (b := {}) (fun e _ => by simp [get, OrdMap.lookup]) (apart_allEntries hb) hnested
  rw [foldl_add_allEntries hb] at hentries
  unfold readFromParcelInner
  rw [if_neg hlength]
  refine (reads_readInt32 _).bind ?_
  rw [if_neg (by decide)]
  refine (reads_readInt32 _).bind ?_
  rw [hsize]
  exact hentries

theorem reads_readNested {fuel : ℕ} (hb : b.Sorted) (hfuel : b.task.bytes.length < fuel)
    (hmax : b.task.bytes.length ≤ int32Max) : Reads (readNested fuel {}) b.task.bytes b := by
  induction fuel generalizing b with
  | zero => exact absurd hfuel (Nat.not_lt_zero _)
  | succ fuel ih =>
    rw [bytes_task] at hfuel hmax ⊢
    unfold readNested
    by_cases hempty : b.empty = true
    · have hzero : Reads readInt32OrZero (wordBytes 0) 0 := reads_readInt32OrZero 0
      rw [if_pos hempty, eq_empty_of_empty hb hempty]
      have hnone : Reads (readFromParcelInner (readNested fuel) 0 {}) [] ({} : PersistableBundle) := reads_pure _
      have hread := hzero.bind (f := fun length : BitVec 32 => if length.toInt < 0 then throw .unexpectedNull
        else readFromParcelInner (readNested fuel) length.toNat {}) hnone
      rwa [append_nil] at hread
    · rw [if_neg hempty] at hfuel hmax ⊢
      have hword (w : BitVec 32) : (wordBytes w).length = 4 := by simp [wordBytes]
      simp only [length_append, hword] at hfuel hmax
      have hinner : b.innerBytes.length ≤ int32Max := by omega
      have hpos : 4 ≤ b.innerBytes.length := by
        rw [innerBytes, length_append, hword]
        omega
      refine (reads_readInt32OrZero _).bind ?_
      rw [if_neg (by rw [toInt_ofNat_of_le hinner]; omega), toNat_ofNat_of_le hinner]
      refine reads_readFromParcelInner hb (by omega) hinner fun key v hv => ?_
      have hle := length_bytes_le hv
      rw [Entry.bytes, length_append, length_append, hword] at hle
      have hvalue : (valueBytes .persistableBundle v).length = v.task.bytes.length := rfl
      dsimp only at hle
      exact ih (hb.of_mem_allEntries hv) (by omega) (by omega)

theorem bytes_task_ne_nil (b : PersistableBundle) : b.task.bytes ≠ [] := by
  rw [bytes_task]
  split_ifs <;> simp [wordBytes, leBytes]

/-- Where the bytes of a bundle stand, it is read. -/
theorem readFromParcel_holds {p : Parcel} (hb : b.Sorted) (hr : Readable p) (hh : Holds p b.task.bytes)
    (hc : p.Clear b.task.bytes.length) :
    ∃ q, Returns ({} : PersistableBundle).readFromParcel p b q ∧ Passed p b.task.bytes.length q := by
  have hsize := hh.le_size
  have hmax := hr.size
  have hreads : Reads (readNested (p.mDataSize + 1) {}) b.task.bytes b := reads_readNested hb (by omega) (by omega)
  obtain ⟨q, hq, hp⟩ := hreads p hr hh hc
  refine ⟨q, ?_, hp⟩
  unfold readFromParcel
  rw [returns_mk]
  exact hq

/-! ### How much is read -/

def typeWeight (t : ValType) (es : List (String16 × t.Val)) : ℕ := (es.map fun e => (Entry.bytes ⟨t, e⟩).length).sum

/-- The number of bytes of all entries. -/
def weight (b : PersistableBundle) : ℕ := (ValType.all.map fun t => typeWeight t (b.entries t)).sum

theorem length_innerBytes (b : PersistableBundle) : b.innerBytes.length = 4 + b.weight := by
  have hentries (t : ValType) :
      (((b.entries t).map (Sigma.mk t)).flatMap Entry.bytes).length = typeWeight t (b.entries t) := by
    rw [flatMap_map, length_flatMap]
    rfl
  rw [innerBytes, length_append, length_wordBytes, allEntries, flatMap_assoc, length_flatMap]
  simp only [hentries]
  rfl

theorem weight_withEntries (b : PersistableBundle) (t : ValType) (m : List (String16 × t.Val)) :
    (b.withEntries t m).weight + typeWeight t (b.entries t) = b.weight + typeWeight t m := by
  unfold weight
  cases t with
  | plain t =>
    cases t <;> simp only [ValType.all, map_cons, map_nil, sum_cons, sum_nil, entries, withEntries] <;> omega
  | persistableBundle =>
    simp only [ValType.all, map_cons, map_nil, sum_cons, sum_nil, entries, withEntries]
    omega

/-- An entry takes the place of one with its key. -/
theorem weight_add (hb : b.Sorted) (t : ValType) (key : String16) (v : t.Val) :
    (b.add ⟨t, key, v⟩).weight + (b.get t key).elim 0 (fun w => (Entry.bytes ⟨t, key, w⟩).length) =
      b.weight + (Entry.bytes ⟨t, key, v⟩).length := by
  have hsum := (hb.entries t).sum_insertEntry (fun e => (Entry.bytes ⟨t, e⟩).length) key v
  have hall := b.weight_withEntries t (assign (b.entries t) key v)
  unfold typeWeight assign at hall
  unfold add get assign
  dsimp only
  omega

/-- What a bundle stands for in the bytes that were read for it: nothing, if it is empty. -/
def stored (b : PersistableBundle) : ℕ := if b.empty then 0 else 12 + b.weight

theorem length_task (b : PersistableBundle) : b.task.bytes.length = if b.empty then 4 else 12 + b.weight := by
  have hword (w : BitVec 32) : (wordBytes w).length = 4 := length_wordBytes w
  rw [bytes_task]
  split_ifs
  · exact hword 0
  · rw [length_append, length_append, hword, hword, length_innerBytes]
    omega

theorem stored_le (b : PersistableBundle) : b.stored ≤ b.task.bytes.length := by
  rw [length_task, stored]
  split_ifs <;> omega

theorem weight_le_stored (hb : b.Sorted) : b.weight ≤ b.stored := by
  unfold stored
  split_ifs with hempty
  · rw [eq_empty_of_empty hb hempty]
    exact le_rfl
  · omega

/-- A read of a bundle into `b` that gives `b'`. It passes as many bytes as the encoding grows by, from `m` to `n`,
if there are four bytes left in the end: else the length word of a bundle may have been missing. -/
structure Gained (m n : PersistableBundle → ℕ) (b b' : PersistableBundle) (p q : Parcel) : Prop where
  sorted : b'.Sorted
  readable : Readable q
  size : q.mDataSize = p.mDataSize
  pos : p.mDataPos ≤ q.mDataPos
  grown : q.mDataPos + 4 ≤ q.mDataSize → n b' + p.mDataPos ≤ m b + q.mDataPos

section Gained

variable {b' : PersistableBundle} {p q : Parcel}
  (hnested : ∀ {b b' p q}, b.Sorted → Readable p → Returns (nested b) p b' q →
    Gained stored (fun b => b.task.bytes.length) b b' p q)

include hnested

theorem gained_readEntry (hb : b.Sorted) (hp : Readable p) (h : Returns (readEntry nested b) p b' q) :
    Gained weight weight b b' p q := by
  rw [readEntry_eq] at h
  obtain ⟨key, p₁, hkey, h⟩ := returns_bind.mp h
  obtain ⟨code, p₂, hcode, h⟩ := returns_bind.mp h
  obtain ⟨hp₁, -⟩ := readString16_passed hp.toGuarded hkey
  obtain ⟨hp₂, -⟩ := readInt32_passed hp₁.guarded hcode
  have hr₂ := (hp.after hp₁).after hp₂
  have hstart : p₂.mDataPos = p.mDataPos + (stringBytes key).length + 4 := by rw [hp₂.pos, hp₁.pos]
  have hsize : p₂.mDataSize = p.mDataSize := hp₂.size.trans hp₁.size
  have hlen (t : ValType) (v : t.Val) :
      (Entry.bytes ⟨t, key, v⟩).length = (stringBytes key).length + (4 + (valueBytes t v).length) := by
    rw [Entry.bytes, length_append, length_append, length_wordBytes]
  cases htype : Fill.typeOf code.toInt with
  | none => simp [htype] at h
  | some t =>
    rw [htype] at h
    cases t with
    | plain t =>
      obtain ⟨v, p₃, hv, h⟩ := returns_bind.mp h
      obtain ⟨rfl, rfl⟩ := returns_pure.mp h
      obtain ⟨hp₃, -⟩ := readData_passed (B := fun i => i.elim) (fun i => i.elim) t.ty (plain_ty t) v hr₂ hv
      have hpos : p₃.mDataPos = p₂.mDataPos + (valueBytes (.plain t) v).length := hp₃.pos
      have hadd := weight_add hb (.plain t) key v
      rw [hlen] at hadd
      refine ⟨hb.assign_plain v, hr₂.after hp₃, hp₃.size.trans hsize, by omega, fun _ => ?_⟩
      change (b.add ⟨.plain t, key, v⟩).weight + _ ≤ _
      omega
    | persistableBundle =>
      obtain ⟨v, p₃, hv, h⟩ := returns_bind.mp h
      obtain ⟨rfl, rfl⟩ := returns_pure.mp h
      have hadd := weight_add hb .persistableBundle key v
      rw [hlen] at hadd
      have hvalue : (valueBytes .persistableBundle v).length = v.task.bytes.length := rfl
      cases hget : b.get .persistableBundle key with
      | none =>
        rw [hget] at hv hadd
        have hg := hnested sorted_empty hr₂ hv
        have hpos := hg.pos
        refine ⟨hb.assign_bundle hg.sorted, hg.readable, hg.size.trans hsize, by omega, fun hleft => ?_⟩
        have hgrown : v.task.bytes.length + p₂.mDataPos ≤ 0 + p₃.mDataPos := hg.grown hleft
        change (b.add ⟨.persistableBundle, key, v⟩).weight + _ ≤ _
        rw [Option.elim_none] at hadd
        omega
      | some w =>
        rw [hget] at hv hadd
        have hg := hnested (hb.nested hget) hr₂ hv
        have hpos := hg.pos
        refine ⟨hb.assign_bundle hg.sorted, hg.readable, hg.size.trans hsize, by omega, fun hleft => ?_⟩
        have hgrown : v.task.bytes.length + p₂.mDataPos ≤ w.stored + p₃.mDataPos := hg.grown hleft
        have hle := w.stored_le
        have hold : (valueBytes .persistableBundle w).length = w.task.bytes.length := rfl
        change (b.add ⟨.persistableBundle, key, v⟩).weight + _ ≤ _
        rw [Option.elim_some, hlen] at hadd
        omega

theorem gained_readEntries (n : ℕ) (hb : b.Sorted) (hp : Readable p) (h : Returns (readEntries nested n b) p b' q) :
    Gained weight weight b b' p q := by
  induction n generalizing b p with
  | zero =>
    obtain ⟨rfl, rfl⟩ := returns_pure.mp h
    exact ⟨hb, hp, rfl, le_rfl, fun _ => le_rfl⟩
  | succ n ih =>
    obtain ⟨b₁, p₁, hfirst, hrest⟩ := returns_bind.mp h
    have hg := gained_readEntry hnested hb hp hfirst
    have hg' := ih hg.sorted hg.readable hrest
    have hpos := hg'.pos
    have hsize := hg'.size
    refine ⟨hg'.sorted, hg'.readable, hsize.trans hg.size, hg.pos.trans hpos, fun hleft => ?_⟩
    have hgrown := hg.grown (by omega)
    have hgrown' := hg'.grown hleft
    omega

theorem gained_readFromParcelInner {length : ℕ} (hlength : length ≠ 0) (hb : b.Sorted) (hp : Readable p)
    (h : Returns (readFromParcelInner nested length b) p b' q) :
    Gained weight (fun b => 8 + b.weight) b b' p q := by
  unfold readFromParcelInner at h
  rw [if_neg hlength] at h
  obtain ⟨magic, p₁, hmagic, h⟩ := returns_bind.mp h
  obtain ⟨-, h⟩ := returns_unless.mp h
  obtain ⟨num, p₂, hnum, h⟩ := returns_bind.mp h
  obtain ⟨hp₁, -⟩ := readInt32_passed hp.toGuarded hmagic
  obtain ⟨hp₂, -⟩ := readInt32_passed hp₁.guarded hnum
  have hpos₁ := hp₁.pos
  have hpos₂ := hp₂.pos
  have hg := gained_readEntries hnested _ hb ((hp.after hp₁).after hp₂) h
  have hpos := hg.pos
  refine ⟨hg.sorted, hg.readable, hg.size.trans (hp₂.size.trans hp₁.size), by omega, fun hleft => ?_⟩
  have hgrown := hg.grown hleft
  omega

end Gained

/-- A bundle is read from at least as many bytes as it is written to. -/
theorem gained_readNested (fuel : ℕ) {b' : PersistableBundle} {p q : Parcel} (hb : b.Sorted) (hp : Readable p)
    (h : Returns (readNested fuel b) p b' q) : Gained stored (fun b => b.task.bytes.length) b b' p q := by
  induction fuel generalizing b b' p q with
  | zero => cases h
  | succ fuel ih =>
    obtain ⟨length, p₁, hword, h⟩ := returns_bind.mp h
    obtain ⟨-, h⟩ := returns_unless.mp h
    have hstored : b'.task.bytes.length ≤ 12 + b'.weight := by
      rw [length_task]
      split_ifs <;> omega
    rcases readInt32OrZero_cases hp.toGuarded with ⟨-, r, hr, hread⟩ | ⟨hshort, hread⟩
    · obtain ⟨-, rfl⟩ := hread.unique hword
      have hpos := hr.pos
      by_cases hzero : length.toNat = 0
      · rw [hzero] at h
        obtain ⟨rfl, rfl⟩ := returns_pure.mp h
        refine ⟨hb, hp.after hr, hr.size, by omega, fun _ => ?_⟩
        rw [length_task, stored]
        split_ifs <;> omega
      · have hg := gained_readFromParcelInner ih hzero hb (hp.after hr) h
        have hpos' := hg.pos
        have hle := weight_le_stored hb
        refine ⟨hg.sorted, hg.readable, hg.size.trans hr.size, by omega, fun hleft => ?_⟩
        have hgrown := hg.grown hleft
        omega
    · obtain ⟨rfl, rfl⟩ := hread.unique hword
      obtain ⟨rfl, rfl⟩ := returns_pure.mp h
      exact ⟨hb, hp, rfl, le_rfl, fun hleft => by omega⟩

end PersistableBundle

namespace Bundles

open PersistableBundle

variable {s : ℕ → PersistableBundle}

/-- The bundle is read from `r`, up to where the writer came. -/
def Restores (b : PersistableBundle) (q r : Parcel) : Prop :=
  ∃ r', Returns ({} : PersistableBundle).readFromParcel r b r' ∧ r'.mDataPos = q.mDataPos

/-- The word of an empty bundle is taken for zero also where an object lies over it. -/
theorem restores_empty {b : PersistableBundle} {p q r : Parcel} (hb : b.Sorted) (hempty : b.empty = true)
    (hr : Readable r) (hfollows : Follows p q r) (hplaced : Placed b.task.bytes p q) : Restores b q r := by
  have hholds := hplaced.holds (bytes_task_ne_nil b) hfollows
  have hpos := hplaced.pos
  rw [bytes_task, if_pos hempty] at hholds hpos
  obtain ⟨r', hread, hpassed⟩ := readInt32OrZero_holds hr.toGuarded hholds (.inr rfl)
  refine ⟨r', ?_, by rw [hpassed.pos, hfollows.pos, hpos, length_wordBytes]⟩
  rw [eq_empty_of_empty hb hempty, readFromParcel, returns_mk]
  exact returns_bind.mpr ⟨0, r', hread, returns_pure.mpr ⟨rfl, rfl⟩⟩

/-- A bundle is read back, whatever follows it, if and only if no block of it was silently left out; and in front of the
magic number always stands how many bytes there are behind it. -/
theorem writeToParcel_restored (hs : Reachable step Free (fun _ => {}) s) (i : ℕ) (env : Env) (p q : Parcel)
    (hp : Within false p) (hw : Returns ((s i).writeToParcel env) p () q) :
    (Takes env (s i).task.blocks p → ∀ r, Readable r → Follows p q r →
      (s i).empty = true ∨ r.Clear (q.mDataPos - p.mDataPos) → Restores (s i) q r) ∧
    (q.mDataPos + 4 ≤ int32Max → (∀ r, Readable r → Follows p q r → r.Clear (q.mDataPos - p.mDataPos) →
      Restores (s i) q r) → Takes env (s i).task.blocks p) ∧
    ((s i).empty = false → q.bytesAt p.mDataPos 8 =
      wordBytes (.ofNat 32 (q.mDataPos - (p.mDataPos + 8))) ++ wordBytes bundleMagicNative) := by
  have hsorted := sorted_of_reachable hs i
  rw [← run_task] at hw
  have htracks := (s i).task.tracks hp hw
  have hne := bytes_task_ne_nil (s i)
  refine ⟨fun htakes r hr hfollows hclear => ?_, fun hmax hall => htracks.takes ?_, fun hempty => ?_⟩
  · have hplaced := (htracks.stands htakes).placed
    have hpos := hplaced.pos
    rcases hclear with hempty | hclear
    · exact restores_empty hsorted hempty hr hfollows hplaced
    · rw [hpos, Nat.add_sub_cancel_left] at hclear
      obtain ⟨r', hread, hp⟩ := readFromParcel_holds hsorted hr (hplaced.holds hne hfollows) hclear
      exact ⟨r', hread, by rw [hp.pos, hpos, hfollows.pos]; rfl⟩
  · -- four more bytes, so that no word is missing behind the bundle
    let r : Parcel := { q with
      mDataPos := p.mDataPos, mDataSize := q.mDataPos + 4, mObjects := [], mNextObjectHint := 0
      mObjectsSorted := false }
    have hr : Readable r := ⟨⟨nofun, nofun⟩, hmax⟩
    obtain ⟨r', hread, hend⟩ := hall r hr ⟨rfl, fun _ _ _ => rfl, Nat.le_add_right _ _⟩ nofun
    unfold readFromParcel at hread
    rw [returns_mk] at hread
    have hg := gained_readNested _ sorted_empty hr hread
    have hsize : r'.mDataSize = q.mDataPos + 4 := hg.size
    have hgrown : (s i).task.bytes.length + p.mDataPos ≤ 0 + r'.mDataPos := hg.grown (by omega)
    have hle : q.mDataPos ≤ p.mDataPos + (s i).task.bytes.length := htracks.le
    change q.mDataPos = p.mDataPos + (s i).task.bytes.length
    omega
  · rw [task_eq, if_neg (by simp [hempty])] at hw
    exact (writeSized_tracks hp (fun _ _ => Task.tracks _) hw).2

/-- A bundle with an integer. -/
theorem writeToParcel_restored_integer : ∃ s : ℕ → PersistableBundle, Reachable step Free (fun _ => {}) s ∧
    (s 0).getInt [] = some 7 ∧ ∃ q r r', Returns ((s 0).writeToParcel zeroEnv) {} () q ∧
      setDataPosition 0 q = some r ∧ Returns ({} : PersistableBundle).readFromParcel r (s 0) r' := by
  let b : PersistableBundle := ({} : PersistableBundle).putInt [] 7
  have hs : Reachable step Free (fun _ => {}) (Function.update (fun _ => {}) 0 b) :=
    .next (a := .put 0 .integer [] (7 : BitVec 32)) .init trivial rfl
  obtain ⟨⟨⟩, q, hq, hpos, hsize, hobjects⟩ : ∃ u q, Returns (b.writeToParcel zeroEnv) {} u q ∧
      q.mDataPos ≤ q.mDataSize ∧ q.mDataSize ≤ int32Max ∧ q.mObjects = [] := exists_returns _ (by decide +kernel)
  let r : Parcel := { q with mDataPos := 0, mNextObjectHint := 0, mObjectsSorted := false }
  have hback : setDataPosition 0 q = some r := setDataPosition_eq_some.mpr ⟨by decide, rfl⟩
  have hclear (n : ℕ) : r.Clear n := fun o ho => absurd (hobjects ▸ ho : o ∈ []) not_mem_nil
  have hp : Within false {} := ⟨le_rfl, nofun, le_rfl, by decide, fun _ => rfl⟩
  have htakes : Takes zeroEnv b.task.blocks {} := by decide +kernel
  obtain ⟨hrestored, -⟩ := writeToParcel_restored hs 0 zeroEnv {} q hp hq
  obtain ⟨r', hread, -⟩ := hrestored htakes r ⟨⟨nofun, nofun⟩, hsize⟩ ⟨rfl, fun _ _ _ => rfl, hpos⟩ (.inr (hclear _))
  exact ⟨_, hs, rfl, q, r, r', hq, hback, hread⟩

/-- Of a string of `2 ^ 30` units only the length is written, and no error is reported; the bundle is not read. -/
theorem not_restored_long_string : ∃ s : ℕ → PersistableBundle, Reachable step Free (fun _ => {}) s ∧
    zeroEnv.Allocates ∧ ∃ q r, Returns ((s 0).writeToParcel zeroEnv) {} () q ∧ setDataPosition 0 q = some r ∧
      ∀ b r', ¬ Returns ({} : PersistableBundle).readFromParcel r b r' := by
  obtain ⟨units, hlen⟩ : ∃ units : List (BitVec 16), units.length = 2 ^ 30 :=
    ⟨List.replicate (2 ^ 30) 97, length_replicate⟩
  let b : PersistableBundle := { mStringMap := [([], units)] }
  have hs : Reachable step Free (fun _ => {}) (Function.update (fun _ => {}) 0 b) :=
    .next (a := .put 0 .string [] units) .init trivial rfl
  let rewound (q : Parcel) : Parcel := { q with mDataPos := 0, mNextObjectHint := 0, mObjectsSorted := false }
  obtain ⟨⟨⟩, q, hq, hread⟩ : ∃ u q, Returns (b.writeToParcel zeroEnv) {} u q ∧
      (returned ({} : PersistableBundle).readFromParcel (rewound q)).isNone := by
    -- all loops but that over the strings are empty
    have hloops : b.writeToParcel zeroEnv = writeSized zeroEnv (do
        attempt (writeInt32 zeroEnv 1)
        PlainType.all.forM fun t => if t = .string then
          [()].forM fun _ => writeEntry zeroEnv (.plain t) [] (attempt (writeString16 zeroEnv units)) else pure ()
        writeBundles zeroEnv []) := rfl
    rw [hloops, writeString16_too_long (by rw [hlen]; decide), hlen]
    exact exists_returns _ (by decide +kernel)
  refine ⟨_, hs, zeroEnv_allocates, q, rewound q, hq, setDataPosition_eq_some.mpr ⟨by decide, rfl⟩, fun b r' h => ?_⟩
  have hsome := returned_eq_some.mpr ⟨r', h⟩
  simp [hsome] at hread

end Bundles

end Binder.Parcel
