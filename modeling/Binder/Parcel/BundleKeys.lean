import Mathlib.Data.Finset.Card
import Binder.Lib.Simulation
import Binder.Lib.Transition
import Binder.Parcel.BundleFill

/-! Which keys a bundle holds, and that a key is held under one type only. -/
namespace Binder.Parcel
open Binder.Lib Fallible List Function

namespace PersistableBundle

variable {b v : PersistableBundle} {t t' : ValType} {key k : String16} {path : List String16}

theorem get_withEntries (b : PersistableBundle) (t : ValType) (m : List (String16 × t.Val)) (k : String16) :
    (b.withEntries t m).get t k = OrdMap.lookup k m := by
  unfold get
  rw [entries_withEntries]

theorem get_withEntries_ne (h : t' ≠ t) (m : List (String16 × t.Val)) (k : String16) :
    (b.withEntries t m).get t' k = b.get t' k := by
  unfold get
  rw [entries_withEntries_ne h]

theorem get_assign (b : PersistableBundle) (t : ValType) (v : t.Val) (key : String16) :
    (b.withEntries t (assign (b.entries t) key v)).get t key = some v := by
  rw [get_withEntries, assign, OrdMap.lookup_insertEntry, if_pos rfl]

theorem get_assign_ne {v : t.Val} (hk : k ≠ key) :
    (b.withEntries t (assign (b.entries t) key v)).get t k = b.get t k := by
  rw [get_withEntries, assign, OrdMap.lookup_insertEntry, if_neg hk]
  rfl

theorem get_isSome : (b.get t k).isSome ↔ k ∈ b.keys t := OrdMap.lookup_isSome

/-- Under `t` there is an entry `path`, where all but its last key are those of nested bundles. -/
inductive HasKey : PersistableBundle → List String16 → ValType → Prop
  | here {b : PersistableBundle} {t : ValType} {key : String16} : (b.get t key).isSome → HasKey b [key] t
  | there {b v : PersistableBundle} {t : ValType} {key : String16} {path : List String16} :
      b.get .persistableBundle key = some v → HasKey v path t → HasKey b (key :: path) t

/-- A key is in at most one of the typed maps, here and in all nested bundles. -/
def Unique (b : PersistableBundle) : Prop := ∀ path t t', HasKey b path t → HasKey b path t' → t = t'

theorem not_hasKey_nil : ¬ HasKey b [] t := by
  intro h
  cases h

theorem not_hasKey_empty : ¬ HasKey {} path t := by
  intro h
  cases h with
  | here h | there h => simp [get, OrdMap.lookup] at h

theorem hasKey_singleton : HasKey b [key] t ↔ (b.get t key).isSome := by
  constructor
  · intro h
    cases h with
    | here h => exact h
    | there _ h => exact absurd h not_hasKey_nil
  · exact .here

theorem hasKey_cons (hpath : path ≠ []) : HasKey b (key :: path) t ↔
    ∃ v, b.get .persistableBundle key = some v ∧ HasKey v path t := by
  constructor
  · intro h
    cases h with
    | here => exact absurd rfl hpath
    | there hv h => exact ⟨_, hv, h⟩
  · rintro ⟨v, hv, h⟩
    exact .there hv h

theorem Unique.nested (h : b.Unique) (hv : b.get .persistableBundle key = some v) : v.Unique :=
  fun path t t' ht ht' => h (key :: path) t t' (.there hv ht) (.there hv ht')

theorem Unique.mono (h : b.Unique) (hsub : ∀ path t, HasKey v path t → HasKey b path t) : v.Unique :=
  fun path t t' ht ht' => h path t t' (hsub path t ht) (hsub path t' ht')

theorem hasKey_assign_plain {p : PlainType} {w : (ValType.plain p).Val} :
    HasKey (b.withEntries (.plain p) (assign (b.entries (.plain p)) key w)) path t ↔
      HasKey b path t ∨ path = [key] ∧ t = .plain p := by
  cases path with
  | nil => simp [not_hasKey_nil]
  | cons k path =>
    by_cases hpath : path = []
    · subst hpath
      rw [hasKey_singleton, hasKey_singleton]
      by_cases ht : t = .plain p
      · subst ht
        by_cases hk : k = key
        · subst hk
          rw [get_assign]
          simp
        · rw [get_assign_ne hk]
          simp [hk]
      · rw [get_withEntries_ne ht]
        simp [ht]
    · rw [hasKey_cons hpath, hasKey_cons hpath, get_withEntries_ne (by simp)]
      simp [hpath]

/-- An entry that is a bundle takes the place of one with the same key. -/
theorem hasKey_assign_bundle : HasKey (b.withEntries .persistableBundle (assign (b.entries .persistableBundle) key v))
    path t ↔ (HasKey b path t ∧ ∀ rest ≠ [], path ≠ key :: rest) ∨ path = [key] ∧ t = .persistableBundle ∨
      ∃ rest, path = key :: rest ∧ HasKey v rest t := by
  cases path with
  | nil => simp [not_hasKey_nil]
  | cons k path =>
    by_cases hpath : path = []
    · subst hpath
      have hrest : ¬ ∃ rest, [k] = key :: rest ∧ HasKey v rest t := by
        rintro ⟨rest, heq, h⟩
        cases heq
        exact not_hasKey_nil h
      have hfree : ∀ rest ≠ [], [k] ≠ key :: rest := by
        rintro rest hne heq
        cases heq
        exact hne rfl
      rw [hasKey_singleton, hasKey_singleton]
      by_cases ht : t = .persistableBundle
      · subst ht
        by_cases hk : k = key
        · subst hk
          rw [get_assign]
          simp
        · rw [get_assign_ne hk]
          simp [hk]
      · rw [get_withEntries_ne ht]
        constructor
        · exact fun h => .inl ⟨h, hfree⟩
        · rintro (h | ⟨-, h⟩ | h)
          · exact h.1
          · exact absurd h ht
          · exact absurd h hrest
    · rw [hasKey_cons hpath, hasKey_cons hpath]
      by_cases hk : k = key
      · subst hk
        rw [get_assign]
        simp [hpath]
      · rw [get_assign_ne hk]
        simp [hk, hpath]

/-! ### Changing a bundle -/

theorem eraseIn_cases (key : String16) (ts : List ValType) (b : PersistableBundle) :
    ((∀ t ∈ ts, key ∉ b.keys t) ∧ eraseIn key ts b = (0, b)) ∨ ∃ t ∈ ts, key ∈ b.keys t ∧
      eraseIn key ts b = (1, b.withEntries t (OrdMap.eraseEntry key (b.entries t))) := by
  induction ts with
  | nil => exact .inl ⟨nofun, rfl⟩
  | cons t ts ih =>
    unfold eraseIn
    by_cases hkey : key ∈ b.keys t
    · rw [if_pos hkey]
      exact .inr ⟨t, mem_cons_self, hkey, rfl⟩
    · rw [if_neg hkey]
      rcases ih with ⟨hnone, heq⟩ | ⟨t', ht', hmem, heq⟩
      · exact .inl ⟨forall_mem_cons.mpr ⟨hkey, hnone⟩, heq⟩
      · exact .inr ⟨t', mem_cons_of_mem t ht', hmem, heq⟩

theorem erase_cases (key : String16) (b : PersistableBundle) :
    ((∀ t, key ∉ b.keys t) ∧ (b.erase key).2 = b) ∨ ∃ t, key ∈ b.keys t ∧
      (b.erase key).2 = b.withEntries t (OrdMap.eraseEntry key (b.entries t)) := by
  rcases eraseIn_cases key ValType.all b with ⟨hnone, heq⟩ | ⟨t, -, hmem, heq⟩
  · exact .inl ⟨fun t => hnone t (ValType.mem_all t), congrArg Prod.snd heq⟩
  · exact .inr ⟨t, hmem, congrArg Prod.snd heq⟩

theorem get_eraseEntry (t : ValType) : (b.withEntries t (OrdMap.eraseEntry key (b.entries t))).get t key = none := by
  rw [get_withEntries, OrdMap.lookup_eraseEntry, if_pos rfl]

theorem get_eraseEntry_eq_some {w : t'.Val}
    (h : (b.withEntries t (OrdMap.eraseEntry key (b.entries t))).get t' k = some w) : b.get t' k = some w := by
  by_cases ht : t' = t
  · subst ht
    rw [get_withEntries, OrdMap.lookup_eraseEntry] at h
    split_ifs at h
    exact h
  · rwa [get_withEntries_ne ht] at h

theorem get_erase {w : t.Val} (h : (b.erase key).2.get t k = some w) : b.get t k = some w := by
  rcases erase_cases key b with ⟨-, heq⟩ | ⟨t', -, heq⟩
  · rwa [heq] at h
  · rw [heq] at h
    exact get_eraseEntry_eq_some h

theorem hasKey_erase (h : HasKey (b.erase key).2 path t) : HasKey b path t := by
  cases h with
  | here h =>
    obtain ⟨w, hw⟩ := Option.isSome_iff_exists.mp h
    exact .here (by rw [get_erase hw]; rfl)
  | there hv h => exact .there (get_erase hv) h

section

variable (h : b.Unique)
include h

theorem Unique.erase (key : String16) : (b.erase key).2.Unique := h.mono fun _ _ => hasKey_erase

/-- `erase` stops at the first map with the key, which is the only one. -/
theorem Unique.get_erase_eq_none (key : String16) (t : ValType) : (b.erase key).2.get t key = none := by
  rcases erase_cases key b with ⟨hnone, heq⟩ | ⟨t', hmem, heq⟩
  · rw [heq]
    have hno := mt get_isSome.mp (hnone t)
    simpa using hno
  · rw [heq]
    by_cases ht : t = t'
    · subst ht
      exact get_eraseEntry t
    · rw [get_withEntries_ne ht]
      by_contra hsome
      have hkey : HasKey b [key] t := .here (Option.isSome_iff_ne_none.mpr hsome)
      exact ht (h [key] t t' hkey (.here (get_isSome.mpr hmem)))

theorem Unique.not_hasKey_erase (key : String16) (rest : List String16) :
    ¬ HasKey (b.erase key).2 (key :: rest) t := by
  intro hkey
  cases hkey with
  | here hsome =>
    rw [h.get_erase_eq_none key t] at hsome
    cases hsome
  | there hv =>
    rw [h.get_erase_eq_none key .persistableBundle] at hv
    cases hv

/-- Only the map of its type finds a value that was put. -/
theorem Unique.get_put (t : ValType) (key : String16) (w : t.Val) :
    (b.put t key w).get t key = some w ∧ ∀ t' ≠ t, (b.put t key w).get t' key = none := by
  refine ⟨get_assign .., fun t' ht' => ?_⟩
  unfold put
  rw [get_withEntries_ne ht']
  exact h.get_erase_eq_none key t'

theorem Unique.put_plain (p : PlainType) (key : String16) (w : p.Val) : (b.put (.plain p) key w).Unique := by
  intro path t t' ht ht'
  unfold put at ht ht'
  rw [hasKey_assign_plain] at ht ht'
  rcases ht with ht | ⟨rfl, rfl⟩
  · rcases ht' with ht' | ⟨rfl, rfl⟩
    · exact h.erase key path t t' ht ht'
    · exact absurd ht (h.not_hasKey_erase key [])
  · rcases ht' with ht' | ⟨-, rfl⟩
    · exact absurd ht' (h.not_hasKey_erase key [])
    · rfl

theorem Unique.put_bundle (hv : v.Unique) (key : String16) : (b.put .persistableBundle key v).Unique := by
  intro path t t' ht ht'
  unfold put at ht ht'
  rw [hasKey_assign_bundle] at ht ht'
  rcases ht with ⟨ht, -⟩ | ⟨rfl, rfl⟩ | ⟨rest, rfl, ht⟩
  · rcases ht' with ⟨ht', -⟩ | ⟨rfl, rfl⟩ | ⟨rest, rfl, ht'⟩
    · exact h.erase key path t t' ht ht'
    · exact absurd ht (h.not_hasKey_erase key [])
    · exact absurd ht (h.not_hasKey_erase key rest)
  · rcases ht' with ⟨ht', -⟩ | ⟨-, rfl⟩ | ⟨rest, heq, ht'⟩
    · exact absurd ht' (h.not_hasKey_erase key [])
    · rfl
    · cases heq
      exact absurd ht' not_hasKey_nil
  · rcases ht' with ⟨ht', -⟩ | ⟨heq, rfl⟩ | ⟨rest', heq, ht'⟩
    · exact absurd ht' (h.not_hasKey_erase key rest)
    · cases heq
      exact absurd ht not_hasKey_nil
    · cases heq
      exact hv rest t t' ht ht'

end

/-! ### The order of the entries -/

/-- The maps are maps, here and in all nested bundles. -/
inductive Sorted : PersistableBundle → Prop
  | mk {b : PersistableBundle} : (∀ t, OrdMap.SortedEntries (b.entries t)) →
      (∀ key v, b.get .persistableBundle key = some v → Sorted v) → Sorted b

theorem Sorted.entries (h : b.Sorted) (t : ValType) : OrdMap.SortedEntries (b.entries t) := by
  cases h with
  | mk h => exact h t

theorem Sorted.nested (h : b.Sorted) (hv : b.get .persistableBundle key = some v) : v.Sorted := by
  cases h with
  | mk _ h => exact h key v hv

theorem sorted_empty : Sorted {} := by
  refine .mk (fun t => ?_) fun key v h => ?_
  · rw [entries_empty]
    exact .nil
  · simp [get, OrdMap.lookup] at h

theorem Sorted.withEntries (h : b.Sorted) {t : ValType} {m : List (String16 × t.Val)} (hm : OrdMap.SortedEntries m)
    (hnested : ∀ key v, (b.withEntries t m).get .persistableBundle key = some v → v.Sorted) :
    (b.withEntries t m).Sorted := by
  refine .mk (fun t' => ?_) hnested
  by_cases ht : t' = t
  · subst ht
    rwa [entries_withEntries]
  · rw [entries_withEntries_ne ht]
    exact h.entries t'

theorem Sorted.assign_plain (h : b.Sorted) {p : PlainType} (w : (ValType.plain p).Val) :
    (b.withEntries (.plain p) (assign (b.entries (.plain p)) key w)).Sorted := by
  refine h.withEntries ((h.entries _).insertEntry key w) fun k v hv => ?_
  rw [get_withEntries_ne (by simp)] at hv
  exact h.nested hv

theorem Sorted.assign_bundle (h : b.Sorted) (hv : v.Sorted) :
    (b.withEntries .persistableBundle (assign (b.entries .persistableBundle) key v)).Sorted := by
  refine h.withEntries ((h.entries .persistableBundle).insertEntry key v) fun k w hw => ?_
  by_cases hk : k = key
  · subst hk
    rw [get_assign] at hw
    cases hw
    exact hv
  · rw [get_assign_ne hk] at hw
    exact h.nested hw

theorem Sorted.erase (h : b.Sorted) (key : String16) : (b.erase key).2.Sorted := by
  rcases erase_cases key b with ⟨-, heq⟩ | ⟨t, -, heq⟩
  · rwa [heq]
  · rw [heq]
    refine h.withEntries ((h.entries t).eraseEntry key) fun k v hv => ?_
    exact h.nested (get_eraseEntry_eq_some hv)

theorem length_keys (b : PersistableBundle) (t : ValType) : (b.keys t).length = (b.entries t).length := by
  simp [keys]

/-- `size` is the number of keys. -/
theorem Unique.size_eq (h : b.Unique) (hs : b.Sorted) : b.size = (ValType.all.flatMap b.keys).toFinset.card := by
  have hnodup : (ValType.all.flatMap b.keys).Nodup := by
    rw [nodup_flatMap]
    refine ⟨fun t _ => (hs.entries t).nodup, ?_⟩
    refine ValType.nodup_all.imp fun {t t'} hne => disjoint_left.mpr fun k hk hk' => hne ?_
    exact h [k] t t' (.here (get_isSome.mpr hk)) (.here (get_isSome.mpr hk'))
  rw [toFinset_card_of_nodup hnodup, length_flatMap]
  unfold size
  congr 1
  exact map_congr_left fun t _ => (length_keys b t).symm

end PersistableBundle

/-! ### The entries that the data lists -/

abbrev Listing := Parcel × List (List String16 × ValType)

namespace Listing

def onParcel {α : Type} (x : Read α) : Fallible Listing Status α := zoom Prod.fst (fun p s => (p, s.2)) x

def note (path : List String16) (t : ValType) : Fallible Listing Status Unit := .ofFun fun s =>
  (.ok (), (s.1, s.2 ++ [(path, t)]))

def inside (key : String16) (x : Fallible Listing Status Unit) : Fallible Listing Status Unit :=
  zoom (fun s => (s.1, [])) (fun s' s => (s'.1, s.2 ++ s'.2.map fun e => (key :: e.1, e.2))) x

def listEntry (nested : Fallible Listing Status Unit) : Fallible Listing Status Unit := do
  let key ← onParcel readString16
  let valueType ← onParcel readInt32
  match Fill.typeOf valueType.toInt with
  | some (.plain t) => do
    note [key] (.plain t)
    let _ ← onParcel (readPlain t.ty)
  | some .persistableBundle => do
    note [key] .persistableBundle
    inside key nested
  | none => throw .badType

def listEntries (nested : Fallible Listing Status Unit) : ℕ → Fallible Listing Status Unit
  | 0 => pure ()
  | n + 1 => do
    listEntry nested
    listEntries nested n

def listInner (nested : Fallible Listing Status Unit) (length : ℕ) : Fallible Listing Status Unit := do
  if length = 0 then pure ()
  else
    let magic ← onParcel readInt32
    if magic ≠ bundleMagic ∧ magic ≠ bundleMagicNative then throw .badValue
    else
      let numEntries ← onParcel readInt32
      listEntries nested numEntries.toInt.toNat

def listNested : ℕ → Fallible Listing Status Unit
  | 0 => ExceptT.mk fun _ => none
  | fuel + 1 => do
    let length ← onParcel readInt32OrZero
    if length.toInt < 0 then throw .unexpectedNull
    else listInner (listNested fuel) length.toNat

/-- The keys and types that the data has for a bundle, up to where it cannot be read on. -/
def listed (p : Parcel) : List (List String16 × ValType) :=
  ((listNested (p.mDataSize + 1)).run.run (p, [])).elim [] fun r => r.2.2

end Listing

namespace Fill

open PersistableBundle

/-- `s` was filled from `b` with the entries that were found. -/
structure Filled (b : PersistableBundle) (s : Fill PersistableBundle) (u : Listing) : Prop where
  parcel : s.parcel = u.1
  sorted : s.val.Sorted
  keys : ∀ path t, HasKey s.val path t ↔ HasKey b path t ∨ (path, t) ∈ u.2

variable {b : PersistableBundle} {x : Fallible (Fill PersistableBundle) Status Unit}
  {y : Fallible Listing Status Unit}

theorem sim_onParcel {α : Type} (x : Read α) : Sim (Filled b) (onParcel x) (Listing.onParcel x) := by
  refine .zoom fun s u h => ⟨(· = ·), h.parcel, .refl x, ?_⟩
  rintro p _ rfl
  exact ⟨rfl, h.sorted, h.keys⟩

/-- The value of an entry that is not a bundle does not matter. -/
theorem sim_fillPlain (t : PlainType) (key : String16) : Sim (Filled b) (fillEntry (.plain t) key (fillValue t)) (do
      Listing.note [key] (.plain t)
      let _ ← Listing.onParcel (readPlain t.ty)) := by
  intro s u h
  have hread := implements_fillValue t (entry (.plain t) key s)
  have hparcel : (entry (.plain t) key s).parcel = u.1 := h.parcel
  rw [hparcel] at hread
  have hfilled (e : Fill t.Val) : Filled b (withEntry (.plain t) key e s) (e.parcel, u.2 ++ [([key], .plain t)]) := by
    refine ⟨rfl, h.sorted.assign_plain e.val, fun path t' => ?_⟩
    have hkeys : HasKey (withEntry (.plain t) key e s).val path t' ↔ _ := hasKey_assign_plain
    rw [hkeys, h.keys, mem_append, mem_singleton, Prod.mk.injEq, or_assoc]
  have hlist : (do
      Listing.note [key] (.plain t)
      let _ ← Listing.onParcel (readPlain t.ty) : Fallible Listing Status Unit).run.run u =
        (((fillValue t).run.run (entry (.plain t) key s)).map fun r =>
          (r.1, (r.2.parcel, u.2 ++ [([key], .plain t)]))) := by
    change ((readPlain t.ty).run.run u.1 |>.map fun r => (r.1, ((r.2, u.2 ++ [([key], .plain t)]) : Listing))).bind _ = _
    rw [hread]
    cases (fillValue t).run.run (entry (.plain t) key s) with
    | none => rfl
    | some r =>
      obtain ⟨_ | a, e⟩ := r
      · rfl
      · rfl
  rw [hlist]
  unfold fillEntry
  rw [run_zoom]
  cases (fillValue t).run.run (entry (.plain t) key s) with
  | none => exact .inl ⟨rfl, rfl⟩
  | some r => exact .inr ⟨r.1, _, _, rfl, rfl, hfilled r.2⟩

/-- A bundle is filled on from what its entry holds. -/
theorem Filled.withEntry {s : Fill PersistableBundle} {u : Listing} {key : String16} {e : Fill PersistableBundle}
    {w : Listing} (h : Filled b s u) (he : Filled ((s.val.get .persistableBundle key).getD {}) e w) :
    Filled b (withEntry .persistableBundle key e s)
      (w.1, u.2 ++ [([key], .persistableBundle)] ++ w.2.map fun e => (key :: e.1, e.2)) := by
  refine ⟨he.parcel, h.sorted.assign_bundle he.sorted, fun path t => ?_⟩
  have hkeys : HasKey (Fill.withEntry .persistableBundle key e s).val path t ↔ _ := hasKey_assign_bundle
  have hold (rest : List String16) : HasKey ((s.val.get .persistableBundle key).getD {}) rest t ↔
      rest ≠ [] ∧ HasKey s.val (key :: rest) t := by
    constructor
    · intro hrest
      have hne : rest ≠ [] := by
        rintro rfl
        exact not_hasKey_nil hrest
      refine ⟨hne, (hasKey_cons hne).mpr ?_⟩
      cases hget : s.val.get .persistableBundle key with
      | none =>
        rw [hget] at hrest
        exact absurd hrest not_hasKey_empty
      | some v =>
        rw [hget] at hrest
        exact ⟨v, rfl, hrest⟩
    · rintro ⟨hne, hrest⟩
      obtain ⟨v, hv, hrest⟩ := (hasKey_cons hne).mp hrest
      rw [hv]
      exact hrest
  have hlist : (path, t) ∈ (w.2.map fun e => (key :: e.1, e.2)) ↔ ∃ rest, path = key :: rest ∧ (rest, t) ∈ w.2 := by
    constructor
    · intro hmem
      obtain ⟨⟨rest, t'⟩, hin, heq⟩ := mem_map.mp hmem
      obtain ⟨rfl, rfl⟩ := Prod.mk.inj heq
      exact ⟨rest, rfl, hin⟩
    · rintro ⟨rest, rfl, hmem⟩
      exact mem_map.mpr ⟨_, hmem, rfl⟩
  have hright : HasKey b path t ∨ (path, t) ∈ u.2 ++ [([key], .persistableBundle)] ++ w.2.map (fun e => (key :: e.1, e.2)) ↔
      HasKey s.val path t ∨ (path = [key] ∧ t = .persistableBundle) ∨ ∃ rest, path = key :: rest ∧ (rest, t) ∈ w.2 := by
    rw [h.keys, mem_append, mem_append, mem_singleton, Prod.mk.injEq, hlist]
    simp only [or_assoc]
  rw [hkeys, hright]
  constructor
  · rintro (⟨hkey, -⟩ | hnew | ⟨rest, rfl, hrest⟩)
    · exact .inl hkey
    · exact .inr (.inl hnew)
    · rcases (he.keys rest t).mp hrest with hrest | hrest
      · exact .inl ((hold rest).mp hrest).2
      · exact .inr (.inr ⟨rest, rfl, hrest⟩)
  · rintro (hkey | hnew | ⟨rest, rfl, hrest⟩)
    · by_cases hrest : ∃ rest, rest ≠ [] ∧ path = key :: rest
      · obtain ⟨rest, hne, rfl⟩ := hrest
        exact .inr (.inr ⟨rest, rfl, (he.keys rest t).mpr (.inl ((hold rest).mpr ⟨hne, hkey⟩))⟩)
      · exact .inl ⟨hkey, fun rest hne heq => hrest ⟨rest, hne, heq⟩⟩
    · exact .inr (.inl hnew)
    · exact .inr (.inr ⟨rest, rfl, (he.keys rest t).mpr (.inr hrest)⟩)

section Nested

variable (h : ∀ b, Sim (Filled b) x y)

include h

theorem sim_fillBundle (key : String16) : Sim (Filled b) (fillEntry .persistableBundle key x) (do
    Listing.note [key] .persistableBundle
    Listing.inside key y) := by
  have hinside : (do
      Listing.note [key] .persistableBundle
      Listing.inside key y : Fallible Listing Status Unit) = zoom (fun s : Listing => ((s.1, []) : Listing))
        (fun s' s => (s'.1, s.2 ++ [([key], .persistableBundle)] ++ s'.2.map fun e => (key :: e.1, e.2))) y := rfl
  rw [hinside]
  refine .zoom fun s u hsu => ⟨_, ?_, h ((s.val.get .persistableBundle key).getD {}), fun e w he => hsu.withEntry he⟩
  refine ⟨hsu.parcel, ?_, fun path t => ?_⟩
  · change ((s.val.get .persistableBundle key).getD {}).Sorted
    cases hget : s.val.get .persistableBundle key with
    | none => exact sorted_empty
    | some => exact hsu.sorted.nested hget
  · change HasKey ((s.val.get .persistableBundle key).getD {}) path t ↔ _
    simp

theorem sim_readEntry : Sim (Filled b) (readEntry x) (Listing.listEntry y) := by
  refine (sim_onParcel _).bind fun key => (sim_onParcel _).bind fun valueType => ?_
  cases typeOf valueType.toInt with
  | none => exact .throw
  | some t =>
    cases t with
    | plain t => exact sim_fillPlain t key
    | persistableBundle => exact sim_fillBundle h key

theorem sim_readFromParcelInner (length : ℕ) :
    Sim (Filled b) (readFromParcelInner x length) (Listing.listInner y length) := by
  have hentries (n : ℕ) : Sim (Filled b) (readEntries x n) (Listing.listEntries y n) := by
    induction n with
    | zero => exact .pure
    | succ n ih => exact (sim_readEntry h).bind fun _ => ih
  refine .ite .pure ((sim_onParcel _).bind fun magic => .ite .throw ?_)
  exact (sim_onParcel _).bind fun numEntries => hentries _

end Nested

theorem sim_readNested (fuel : ℕ) (b : PersistableBundle) :
    Sim (Filled b) (readNested fuel) (Listing.listNested fuel) := by
  induction fuel generalizing b with
  | zero => exact .abort
  | succ fuel ih =>
    have hbody : Sim (Filled b) (do
        let length ← onParcel readInt32OrZero
        if length.toInt < 0 then throw .unexpectedNull
        else readFromParcelInner (readNested fuel) length.toNat) (Listing.listNested (fuel + 1)) :=
      (sim_onParcel _).bind fun length => .ite .throw (sim_readFromParcelInner ih _)
    intro s u hsu
    exact hbody { s with level := s.level + 1, depth := max s.depth (s.level + 1) } u ⟨hsu.parcel, hsu.sorted, hsu.keys⟩

/-- Reading adds exactly the entries that the data lists, whatever the status is. -/
theorem hasKey_readFromParcel {r : Except Status Unit} {s s' : Fill PersistableBundle} (hs : s.val.Sorted)
    (h : readFromParcel.run.run s = some (r, s')) : s'.val.Sorted ∧
      ∀ path t, HasKey s'.val path t ↔ HasKey s.val path t ∨ (path, t) ∈ Listing.listed s.parcel := by
  rw [readFromParcel, run_mk] at h
  have hstart : Filled s.val s (s.parcel, []) := ⟨rfl, hs, by simp⟩
  rcases sim_readNested (s.parcel.mDataSize + 1) s.val s _ hstart with ⟨hnone, -⟩ | ⟨r', t, u, ht, hu, hfilled⟩
  · rw [hnone] at h
    cases h
  · rw [ht] at h
    cases h
    refine ⟨hfilled.sorted, fun path t => ?_⟩
    rw [hfilled.keys, Listing.listed, hu]
    rfl

end Fill

/-! ### Runs -/

namespace Bundles

open PersistableBundle

/-- What a program does with its bundles, which it numbers. -/
inductive Op
  | put (i : ℕ) (t : PlainType) (key : String16) (v : t.Val)
  | putPersistableBundle (i : ℕ) (key : String16) (j : ℕ)
  | erase (i : ℕ) (key : String16)
  | getPersistableBundle (i : ℕ) (key : String16) (j : ℕ)
  | readFromParcel (i : ℕ) (p : Parcel)

/-- A nested bundle is put from and taken to another variable. After a read the bundle is what the read has left, with
any status. -/
def step (s : ℕ → PersistableBundle) : Op → Option (ℕ → PersistableBundle)
  | .put i t key v => some (update s i ((s i).put (.plain t) key v))
  | .putPersistableBundle i key j => some (update s i (putPersistableBundle key (s j) (s i)))
  | .erase i key => some (update s i ((s i).erase key).2)
  | .getPersistableBundle i key j => ((s i).getPersistableBundle key).map (update s j)
  | .readFromParcel i p => (Fill.readFromParcel.run.run { parcel := p, val := s i }).map fun r =>
    update s i r.2.val

/-- The entries that the data lists, with those that the bundle has, are under one type each. -/
def Agrees (b : PersistableBundle) (p : Parcel) : Prop := ∀ path t t',
  (HasKey b path t ∨ (path, t) ∈ Listing.listed p) → (HasKey b path t' ∨ (path, t') ∈ Listing.listed p) → t = t'

def OpAgrees (s : ℕ → PersistableBundle) : Op → Prop
  | .readFromParcel i p => Agrees (s i) p
  | .put .. | .putPersistableBundle .. | .erase .. | .getPersistableBundle .. => True

variable {s s' : ℕ → PersistableBundle}

theorem unique_empty : Unique {} := fun _ _ _ h => absurd h not_hasKey_empty

/-- A read keeps the keys unique exactly if the data agrees. -/
theorem unique_read {i : ℕ} {p : Parcel} (hs : (s i).Sorted) (h : step s (.readFromParcel i p) = some s') :
    (s' i).Sorted ∧ ((s' i).Unique ↔ Agrees (s i) p) := by
  obtain ⟨⟨r, t⟩, hread, rfl⟩ := Option.map_eq_some_iff.mp h
  obtain ⟨hsorted, hkeys⟩ := Fill.hasKey_readFromParcel (s := { parcel := p, val := s i }) hs hread
  rw [update_self]
  refine ⟨hsorted, ?_⟩
  unfold PersistableBundle.Unique Agrees
  simp only [hkeys]

def Kept (s : ℕ → PersistableBundle) : Prop := ∀ i, (s i).Unique ∧ (s i).Sorted

/-- Every step keeps the maps sorted, and the keys unique where a read agrees with the bundle that it fills. -/
theorem step_keeps {op : Op} (h : ∀ i, (s i).Sorted) (hs : step s op = some s') : (∀ i, (s' i).Sorted) ∧
    ((∀ i, (s i).Unique) → OpAgrees s op → ∀ i, (s' i).Unique) := by
  have hupdate {op : Op} {i : ℕ} {b : PersistableBundle} (hb : b.Sorted)
      (hu : (∀ i, (s i).Unique) → OpAgrees s op → b.Unique) : (∀ j, (update s i b j).Sorted) ∧
        ((∀ i, (s i).Unique) → OpAgrees s op → ∀ j, (update s i b j).Unique) := by
    refine ⟨(forall_update_iff s fun _ b => b.Sorted).mpr ⟨hb, fun j _ => h j⟩, fun hall hop => ?_⟩
    exact (forall_update_iff s fun _ b => b.Unique).mpr ⟨hu hall hop, fun j _ => hall j⟩
  cases op with
  | put i t key v =>
    cases hs
    exact hupdate (((h i).erase key).assign_plain v) fun hall _ => (hall i).put_plain t key v
  | putPersistableBundle i key j =>
    cases hs
    exact hupdate (((h i).erase key).assign_bundle (h j)) fun hall _ => (hall i).put_bundle (hall j) key
  | erase i key =>
    cases hs
    exact hupdate ((h i).erase key) fun hall _ => (hall i).erase key
  | getPersistableBundle i =>
    obtain ⟨v, hv, rfl⟩ := Option.map_eq_some_iff.mp hs
    exact hupdate ((h i).nested hv) fun hall _ => (hall i).nested hv
  | readFromParcel i =>
    have hread := unique_read (h i) hs
    obtain ⟨r, -, rfl⟩ := Option.map_eq_some_iff.mp hs
    rw [update_self] at hread
    exact hupdate hread.1 fun _ => hread.2.mpr

theorem Kept.step {op : Op} (h : Kept s) (hop : OpAgrees s op) (hs : step s op = some s') : Kept s' :=
  have hkeeps := step_keeps (fun i => (h i).2) hs
  fun i => ⟨hkeeps.2 (fun i => (h i).1) hop i, hkeeps.1 i⟩

theorem sorted_of_reachable {C : (ℕ → PersistableBundle) → Op → Prop} (h : Reachable step C (fun _ => {}) s) (i : ℕ) :
    (s i).Sorted :=
  h.invariant (fun s => ∀ i, (s i).Sorted) (fun _ => sorted_empty) (fun _ _ _ hs _ hstep => (step_keeps hs hstep).1) i

/-- In every run whose reads agree with the bundles that they fill, a key is in at most one of the typed maps; and in
a state of such a run, reading on keeps that exactly if it agrees too. -/
theorem keys_unique (h : Reachable step OpAgrees (fun _ => {}) s) (i : ℕ) : (s i).Unique ∧
    (s i).size = (ValType.all.flatMap (s i).keys).toFinset.card ∧
    (∀ key t, ((s i).erase key).2.get t key = none) ∧
    (∀ t key (v : t.Val), ((s i).put t key v).get t key = some v ∧
      ∀ t' ≠ t, ((s i).put t key v).get t' key = none) ∧
    ∀ p s', step s (.readFromParcel i p) = some s' → ((s' i).Unique ↔ Agrees (s i) p) := by
  have hkept := h.invariant Kept (fun _ => ⟨unique_empty, sorted_empty⟩) fun _ _ _ hs hop hstep => hs.step hop hstep
  obtain ⟨hunique, hsorted⟩ := hkept i
  exact ⟨hunique, hunique.size_eq hsorted, hunique.get_erase_eq_none, hunique.get_put,
    fun p s' hstep => (unique_read hsorted hstep).2⟩

def ofWords (ws : List (BitVec 32)) : Parcel where
  mData := some (.ofBytes ((1 :: bundleMagicNative :: ws).flatMap wordBytes))
  mDataSize := (ws.length + 2) * 4
  mDataCapacity := (ws.length + 2) * 4

/-- A bundle with one integer is read. -/
theorem keys_unique_integer : ∃ s : ℕ → PersistableBundle, (s 0).size = 1 ∧ (s 0).Unique := by
  have hlisted : Listing.listed (ofWords [1, 0, 0, 1, 7]) = [([[]], .plain .integer)] := by decide +kernel
  have hagrees : OpAgrees (fun _ => {}) (.readFromParcel 0 (ofWords [1, 0, 0, 1, 7])) := by
    intro path t t' ht ht'
    rw [hlisted, mem_singleton] at ht ht'
    rcases ht with ht | ht
    · exact absurd ht not_hasKey_empty
    · rcases ht' with ht' | ht'
      · exact absurd ht' not_hasKey_empty
      · exact (Prod.mk.inj ht).2.trans (Prod.mk.inj ht').2.symm
  have hread : ((step (fun _ => {}) (.readFromParcel 0 (ofWords [1, 0, 0, 1, 7]))).map fun s => (s 0).size) = some 1 := by
    decide +kernel
  obtain ⟨s, hstep, hsize⟩ := Option.map_eq_some_iff.mp hread
  exact ⟨s, hsize, (keys_unique (.next .init hagrees hstep) 0).1⟩

/-- Data that lists the empty key as an integer and as a long gives it to both maps: it is counted twice, and is still
there after it was erased. -/
theorem keys_not_unique : ∃ s, Reachable step Free (fun _ => {}) s ∧ ¬ (s 0).Unique ∧ (s 0).size = 2 ∧
    ((s 0).erase []).2.getLong [] ≠ none ∧ ((s 0).putInt [] 5).getLong [] ≠ none := by
  obtain ⟨s, hs, hint, hlong, htest⟩ := exists_reachable step Free (fun _ => {})
    [.readFromParcel 0 (ofWords [2, 0, 0, 1, 7, 0, 0, 6, 8, 0])]
    (fun s => ((s 0).getInt []).isSome ∧ ((s 0).getLong []).isSome ∧ (s 0).size = 2 ∧
      ((s 0).erase []).2.getLong [] ≠ none ∧ ((s 0).putInt [] 5).getLong [] ≠ none) (by decide +kernel)
  refine ⟨s, hs, fun hunique => ?_, htest⟩
  have heq := hunique [[]] (.plain .integer) (.plain .long) (.here hint) (.here hlong)
  cases heq

end Bundles

end Binder.Parcel
