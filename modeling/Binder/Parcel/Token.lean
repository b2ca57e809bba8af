import Binder.Parcel.WorkSource

/-! Which bytes `enforceInterface` takes for a request with the expected interface. -/
namespace Binder.Parcel
open Binder.Lib Fallible List

variable {p q r : Parcel} {str : List (BitVec 16)}

/-! ### Strings in the data -/

/-- The bytes at `off` behind the position are a complete `String16` with its terminator, and no object lies over
them. What stands in the padding does not matter. -/
structure Encodes (p : Parcel) (off : ℕ) (str : List (BitVec 16)) : Prop where
  short : (str.length + 1) * 2 ≤ int32Max
  inData : p.mDataPos + off + 4 + padSize ((str.length + 1) * 2) ≤ p.mDataSize
  length : p.bytesAt (p.mDataPos + off) 4 = wordBytes (.ofNat 32 str.length)
  chars : p.bytesAt (p.mDataPos + off + 4) ((str.length + 1) * 2) = char16Bytes str ++ [0, 0]
  clear : p.ClearFrom off (off + 4 + padSize ((str.length + 1) * 2))

variable {off n : ℕ} {bs as : List UInt8} {mem : Memory}

theorem Encodes.moved (hp : Passed p off r) : Encodes r 0 str ↔ Encodes p off str := by
  have hbytes (a n : ℕ) : r.bytesAt a n = p.bytesAt a n := by rw [bytesAt, bytesAt, hp.data]
  have hpos := hp.pos
  constructor
  · rintro ⟨hshort, hin, hlength, hchars, hclear⟩
    rw [hpos, Nat.add_zero, hbytes] at hlength hchars
    refine ⟨hshort, ?_, hlength, hchars, fun o ho => ?_⟩
    · rw [← hp.size]
      omega
    · have hno := hclear o (hp.objects.mem_iff.mpr ho)
      omega
  · rintro ⟨hshort, hin, hlength, hchars, hclear⟩
    refine ⟨hshort, ?_, ?_, ?_, fun o ho => ?_⟩
    · rw [hp.size]
      omega
    · rwa [hpos, Nat.add_zero, hbytes]
    · rwa [hpos, Nat.add_zero, hbytes]
    · have hno := hclear o (hp.objects.mem_iff.mp ho)
      omega

/-- The word at the position, or zero if it is missing or protected. -/
theorem readInt32OrZero_cases (hg : Guarded p) : p.mDataPos + 4 ≤ p.mDataSize ∧ (∃ q, Passed p 4 q ∧
      Returns readInt32OrZero p (if p.Clear 4 then .ofNat 32 (leNat (p.bytesAt p.mDataPos 4)) else 0) q) ∨
    p.mDataSize < p.mDataPos + 4 ∧ Returns readInt32OrZero p 0 p := by
  simp only [returns_readInt32OrZero]
  obtain ⟨s, hs, hpass⟩ := passOver_cases (n := 4) hg
  by_cases hsize : p.mDataPos + 4 ≤ p.mDataSize
  · left
    refine ⟨hsize, ?_⟩
    by_cases hclear : p.Clear 4
    · rw [if_pos hclear]
      refine ⟨s.log [.load p.mDataPos 4], hpass.log, .inl (returns_readInt32.mpr ⟨_, ?_, rfl⟩)⟩
      exact (returns_readAligned hg).mpr ⟨hsize, hclear, rfl, by rw [hs]⟩
    · rw [if_neg hclear]
      exact ⟨s, hpass, .inr ⟨rfl, _, (fails_readInt32 hg).mpr (.inr ⟨hsize, hclear, rfl, by rw [hs]⟩)⟩⟩
  · right
    rw [Nat.not_le] at hsize
    exact ⟨hsize, .inr ⟨trivial, _, (fails_readInt32 hg).mpr (.inl ⟨hsize, rfl, rfl⟩)⟩⟩

theorem ofNat_leNat_eq_iff (hlen : bs.length = 4) (v : BitVec 32) :
    BitVec.ofNat 32 (leNat bs) = v ↔ bs = wordBytes v := by
  have hlt := leNat_lt bs
  rw [hlen] at hlt
  constructor
  · rintro rfl
    have hbytes := leBytes_leNat bs
    rw [wordBytes, BitVec.toNat_ofNat, Nat.mod_eq_of_lt (by omega), ← hlen, hbytes]
  · rintro rfl
    exact Codec.ofNat_leNat_leBytes (by decide) v

theorem length_bytesAt (h : p.mData = some mem) : (p.bytesAt off n).length = n := by
  rw [bytesAt, h]
  exact Memory.length_load

theorem bytesAt_ne {b : UInt8} (h : p.bytesAt off n = b :: bs) : ∃ mem, p.mData = some mem := by
  cases hdata : p.mData with
  | none => simp [bytesAt, hdata] at h
  | some mem => exact ⟨mem, rfl⟩

theorem wordBytes_ne (v : BitVec 32) : ∃ b bs, wordBytes v = b :: bs := ⟨_, _, rfl⟩

theorem exists_returns_readInt32OrZero (hg : Guarded p) : ∃ v q, Returns readInt32OrZero p v q := by
  rcases readInt32OrZero_cases hg with ⟨-, q, -, hq⟩ | ⟨-, hq⟩
  · exact ⟨_, q, hq⟩
  · exact ⟨_, p, hq⟩

theorem exists_returns_readInplace (len : ℕ) (p : Parcel) : ∃ str q, Returns (readInplace len) p str q := by
  simp only [readInplace, returns_mk]
  by_cases hlen : len > int32Max
  · exact ⟨_, _, if_pos hlen⟩
  · rw [if_neg hlen, padSize?_eq (not_lt.mp hlen), Option.map_some]
    by_cases hsize : p.mDataPos + padSize len ≤ p.mDataSize
    · rw [if_pos hsize]
      cases hpass : passOver (padSize len) p with
      | mk st => cases st <;> exact ⟨_, _, rfl⟩
    · rw [if_neg hsize]
      exact ⟨_, _, rfl⟩

theorem exists_returns_readString16Inplace (hg : Guarded p) : ∃ str q, Returns readString16Inplace p str q := by
  obtain ⟨v, r, hv⟩ := exists_returns_readInt32OrZero hg
  unfold readString16Inplace
  simp only [returns_bind]
  by_cases hbounds : 0 ≤ v.toInt ∧ v.toInt < int32Max
  · obtain ⟨mem, q, hq⟩ := exists_returns_readInplace ((v.toNat + 1) * 2) r
    cases mem with
    | none =>
      refine ⟨none, q, v, r, hv, ?_⟩
      rw [if_pos hbounds, returns_bind]
      exact ⟨none, q, hq, returns_pure.mpr ⟨rfl, rfl⟩⟩
    | some mem =>
      refine ⟨if charAt mem v.toNat = 0 then some (mem, v.toNat) else none, q, v, r, hv, ?_⟩
      rw [if_pos hbounds, returns_bind]
      refine ⟨some mem, q, hq, ?_⟩
      dsimp only
      split_ifs <;> exact returns_pure.mpr ⟨rfl, rfl⟩
  · exact ⟨none, r, v, r, hv, by rw [if_neg hbounds]; exact returns_pure.mpr ⟨rfl, rfl⟩⟩

theorem Encodes.returns (hg : Guarded p) (h : Encodes p 0 str) : ∃ mem q,
    Returns readString16Inplace p (some (mem, str.length)) q ∧ (List.range str.length).map (charAt mem) = str := by
  obtain ⟨hshort, hin, hlength, hchars, hclear⟩ := h
  have hclear : p.Clear (4 + padSize ((str.length + 1) * 2)) := by
    exact hclear
  rw [Nat.add_zero] at hin hlength hchars
  obtain ⟨b, bs, hword⟩ := wordBytes_ne (.ofNat 32 str.length)
  obtain ⟨mem, hmem⟩ := bytesAt_ne (hlength.trans hword)
  rcases readInt32OrZero_cases hg with ⟨-, r, hp, hr⟩ | ⟨hsize, -⟩
  · rw [if_pos hclear.left, (ofNat_leNat_eq_iff (length_bytesAt hmem) _).mpr hlength] at hr
    have hload : (mem.shift r.mDataPos).load 0 ((str.length + 1) * 2) = char16Bytes str ++ [0, 0] := by
      rw [Memory.load_shift, Nat.add_zero, hp.pos]
      simpa [bytesAt, hmem] using hchars
    obtain ⟨hstr, hnull⟩ := load_terminated.mp ⟨hload, rfl⟩
    have hroom : r.mDataPos + padSize ((str.length + 1) * 2) ≤ r.mDataSize := by
      rw [hp.pos, hp.size]
      exact hin
    have hread := (returns_readInplace hp.guarded).mpr
      ⟨hshort, hroom, hclear.right hp, ⟨mem, hp.data.trans hmem, rfl⟩, rfl⟩
    refine ⟨_, _, returns_readString16Inplace.mpr ⟨_, r, hr, ?_, ?_, hread, hnull⟩, hstr⟩
    · exact toNat_ofNat_of_le (by omega)
    · omega
  · omega

theorem encodes_of_returns {len : ℕ} (hg : Guarded p)
    (h : Returns readString16Inplace p (some (mem, len)) q) (hlen : len = 0 → ∃ w t, Returns readInt32 p w t) :
    Encodes p 0 ((List.range len).map (charAt mem)) := by
  obtain ⟨v, r, hv, rfl, -, hread, hnull⟩ := returns_readString16Inplace.mp h
  -- a length that is not zero was really read
  have hword : Returns readInt32 p v r := by
    rcases returns_readInt32OrZero.mp hv with hword | ⟨rfl, e, hfail⟩
    · exact hword
    · obtain ⟨w, t, hw⟩ := hlen rfl
      cases hw.symm.trans hfail
  obtain ⟨bs, hbs, hval⟩ := returns_readInt32.mp hword
  obtain ⟨hsize, hclear, rfl, -⟩ := (returns_readAligned hg).mp hbs
  obtain ⟨hp, -⟩ := readInt32_passed hg hword
  obtain ⟨hshort, hroom, hclear', ⟨data, hdata, rfl⟩, -⟩ := (returns_readInplace hp.guarded).mp hread
  have hmem : p.mData = some data := hp.data ▸ hdata
  obtain ⟨hload, hcount⟩ := load_terminated.mpr ⟨rfl, hnull⟩
  rw [hp.pos, hp.size] at hroom
  refine ⟨by rwa [hcount], ?_, ?_, ?_, ?_⟩
  · rw [hcount]
    omega
  · rw [hcount, BitVec.ofNat_toNat, BitVec.setWidth_eq]
    exact (ofNat_leNat_eq_iff (length_bytesAt hmem) v).mp hval
  · rw [hcount, ← hload, Memory.load_shift, Nat.add_zero, hp.pos, Nat.add_zero, bytesAt, hmem]
    rfl
  · rw [hcount, Nat.zero_add]
    exact hclear.add hp hclear'

namespace Headed

/-! ### Tokens that are read -/

variable {s : Headed} {interface : List (BitVec 16)}

/-- The third word is the header that is looked for. -/
def HeaderWord (p : Parcel) : Prop :=
  p.mDataPos + 12 ≤ p.mDataSize ∧ p.bytesAt (p.mDataPos + 8) 4 = wordBytes kHeader ∧ p.ClearFrom 8 12

/-- A policy, a work source and the header, with the descriptor behind them, and no object over any of it. -/
structure IsToken (p : Parcel) (interface : List (BitVec 16)) : Prop where
  header : p.bytesAt (p.mDataPos + 8) 4 = wordBytes kHeader
  descriptor : Encodes p 12 interface
  clear : p.Clear 12

theorem isToken_iff : IsToken p interface ↔ HeaderWord p ∧ Encodes p 12 interface ∧ p.Clear 8 := by
  have hsize : sizeofFlatBinderObject = 24 := rfl
  constructor
  · rintro ⟨hheader, hdescriptor, hclear⟩
    have hin := hdescriptor.inData
    refine ⟨⟨by omega, hheader, fun o ho => ?_⟩, hdescriptor, fun o ho => ?_⟩
    · have hno := hclear o ho
      omega
    · have hno := hclear o ho
      omega
  · rintro ⟨⟨-, hheader, hclear⟩, hdescriptor, hclear'⟩
    refine ⟨hheader, hdescriptor, fun o ho => ?_⟩
    have hno := hclear o ho
    have hno' := hclear' o ho
    omega

theorem kHeader_ne : (0 : BitVec 32) ≠ kHeader := by decide

/-- A word that can be read is passed also where it is protected. -/
theorem readWord_cases (hg : Guarded p) : p.mDataPos + 4 ≤ p.mDataSize ∧ (∃ q, Passed p 4 q ∧
      readWord p = some (if p.Clear 4 then .ofNat 32 (leNat (p.bytesAt p.mDataPos 4)) else 0, q)) ∨
    p.mDataSize < p.mDataPos + 4 ∧ readWord p = some (0, p) := by
  simp only [readWord_eq_some]
  exact readInt32OrZero_cases hg

theorem readHeader (hg : Guarded p) : ∃ a p₁ b p₂ v p₃, readWord p = some (a, p₁) ∧ readWord p₁ = some (b, p₂) ∧
    readWord p₂ = some (v, p₃) ∧ (v = kHeader ↔ HeaderWord p) ∧ (HeaderWord p → Passed p 12 p₃) := by
  have hshort (h : p.mDataSize < p.mDataPos + 12) : ¬ HeaderWord p := fun hh => by
    have := hh.1
    omega
  rcases readWord_cases hg with ⟨h₁, p₁, hp₁, hr₁⟩ | ⟨h₁, hr₁⟩
  · rcases readWord_cases hp₁.guarded with ⟨h₂, p₂, hp₂, hr₂⟩ | ⟨h₂, hr₂⟩
    · have hp := hp₁.trans hp₂
      rcases readWord_cases hp.guarded with ⟨h₃, p₃, hp₃, hr₃⟩ | ⟨h₃, hr₃⟩
      · refine ⟨_, p₁, _, p₂, _, p₃, hr₁, hr₂, hr₃, ?_, fun _ => hp.trans hp₃⟩
        rw [hp.pos, hp.size] at h₃
        have hclear : p₂.Clear 4 ↔ p.ClearFrom 8 12 := by
          constructor
          · intro h o ho
            have hno := h o (hp.objects.mem_iff.mpr ho)
            have hpos := hp.pos
            omega
          · intro h o ho
            have hno := h o (hp.objects.mem_iff.mp ho)
            have hpos := hp.pos
            omega
        have hbytes : p₂.bytesAt p₂.mDataPos 4 = p.bytesAt (p.mDataPos + 8) 4 := by
          rw [bytesAt, bytesAt, hp.data, hp.pos]
        unfold HeaderWord
        rw [← hclear, ← hbytes]
        by_cases hc : p₂.Clear 4
        · rw [if_pos hc]
          have hword : BitVec.ofNat 32 (leNat (p₂.bytesAt p₂.mDataPos 4)) = kHeader ↔
              p₂.bytesAt p₂.mDataPos 4 = wordBytes kHeader := by
            cases hdata : p₂.mData with
            | none =>
              simp only [bytesAt, hdata, Option.elim_none]
              decide
            | some => exact ofNat_leNat_eq_iff (length_bytesAt hdata) kHeader
          rw [hword]
          exact ⟨fun h => ⟨by omega, h, hc⟩, fun h => h.2.1⟩
        · rw [if_neg hc]
          exact iff_of_false kHeader_ne fun h => hc h.2.2
      · have hpos := hp.pos
        have hsize := hp.size
        exact ⟨_, p₁, _, p₂, _, p₂, hr₁, hr₂, hr₃, iff_of_false kHeader_ne (hshort (by omega)),
          fun h => absurd h (hshort (by omega))⟩
    · have hpos := hp₁.pos
      have hsize := hp₁.size
      exact ⟨_, p₁, _, p₁, _, p₁, hr₁, hr₂, hr₂, iff_of_false kHeader_ne (hshort (by omega)),
        fun h => absurd h (hshort (by omega))⟩
  · exact ⟨_, p, _, p, _, p, hr₁, hr₁, hr₁, iff_of_false kHeader_ne (hshort (by omega)),
      fun h => absurd h (hshort (by omega))⟩

/-- A descriptor that cannot be read counts as an empty one. -/
theorem checkDescriptor_cases (hg : Guarded s.parcel) : ∃ b s', s.checkDescriptor interface = some (b, s') ∧
    (b = true ↔ Encodes s.parcel 0 interface ∨ interface = [] ∧ ∀ str, str ≠ [] → ¬ Encodes s.parcel 0 str) := by
  obtain ⟨res, q, hread⟩ := exists_returns_readString16Inplace hg
  have hunique {str : List (BitVec 16)} (h : Encodes s.parcel 0 str) :
      ∃ mem, res = some (mem, str.length) ∧ (List.range str.length).map (charAt mem) = str := by
    obtain ⟨mem, q', hret, hstr⟩ := h.returns hg
    cases hread.symm.trans hret
    exact ⟨mem, rfl, hstr⟩
  -- no other string stands there where an empty one or none is read
  have hempty (hres : ∀ mem (str : List (BitVec 16)), str ≠ [] → res ≠ some (mem, str.length)) :
      decide (interface = []) = true ↔
        Encodes s.parcel 0 interface ∨ interface = [] ∧ ∀ str, str ≠ [] → ¬ Encodes s.parcel 0 str := by
    have hno (str : List (BitVec 16)) (hne : str ≠ []) : ¬ Encodes s.parcel 0 str := fun h => by
      obtain ⟨mem, heq, -⟩ := hunique h
      exact hres mem str hne heq
    rw [decide_eq_true_eq]
    constructor
    · exact fun h => .inr ⟨h, hno⟩
    · rintro (h | ⟨h, -⟩)
      · by_contra hne
        exact hno interface hne h
      · exact h
  unfold checkDescriptor
  rw [hread]
  cases res with
  | none => exact ⟨_, _, rfl, hempty fun _ _ _ => nofun⟩
  | some found =>
    obtain ⟨mem, len⟩ := found
    refine ⟨_, _, rfl, ?_⟩
    by_cases hlen : len = 0
    · subst hlen
      have hnil : decide ((List.range 0).map (charAt mem) = interface) = decide (interface = []) :=
        decide_eq_decide.mpr eq_comm
      rw [hnil]
      refine hempty fun mem' str hne heq => hne ?_
      have hlength := congrArg Prod.snd (Option.some.inj heq)
      exact length_eq_zero_iff.mp hlength.symm
    · have henc := encodes_of_returns hg hread fun h => absurd h hlen
      rw [decide_eq_true_eq]
      constructor
      · rintro rfl
        exact .inl henc
      · rintro (h | ⟨-, hno⟩)
        · obtain ⟨mem', heq, hstr⟩ := hunique h
          cases heq
          exact hstr
        · exact absurd henc (hno _ (by simpa using hlen))

theorem enforceInterface_cases (hkernel : s.parcel.mSession = none) (hg : Guarded s.parcel)
    (interface : List (BitVec 16)) : ∃ b s', s.enforceInterface interface = some (b, s') ∧
      (b = true ↔ HeaderWord s.parcel ∧ (Encodes s.parcel 12 interface ∨
        interface = [] ∧ ∀ str, str ≠ [] → ¬ Encodes s.parcel 12 str)) := by
  obtain ⟨a, p₁, b, p₂, v, p₃, h₁, h₂, h₃, hheader, hpassed⟩ := readHeader hg
  have hnone : s.parcel.mSession.isNone := by rw [hkernel]; rfl
  unfold enforceInterface
  simp only [if_pos hnone, h₁, h₂, h₃, Option.bind_some]
  by_cases hv : v = kHeader
  · have hp := hpassed (hheader.mp hv)
    let read : Headed := { ({ s with parcel := p₁ } : Headed).updateWorkSourceRequestHeaderPosition with parcel := p₃ }
    obtain ⟨ok, s', hcheck, hok⟩ : ∃ ok s', read.checkDescriptor interface = some (ok, s') ∧ _ :=
      checkDescriptor_cases hp.guarded
    refine ⟨ok, s', ?_, ?_⟩
    · rw [if_neg (not_not.mpr hv)]
      exact hcheck
    · have hmoved (str : List (BitVec 16)) : Encodes read.parcel 0 str ↔ Encodes s.parcel 12 str := Encodes.moved hp
      rw [hok, and_iff_right (hheader.mp hv)]
      simp only [hmoved]
  · refine ⟨false, _, if_pos hv, iff_of_false nofun fun h => hv (hheader.mpr h.1)⟩

end Headed

/-! ### Tokens that are written -/

/-- The writes of `writeInterfaceToken` on a parcel that is not for RPC. -/
def Request.token (policy workSource : BitVec 32) (str : List (BitVec 16)) : Request :=
  (Request.dropped (policy ||| strictModePenaltyGather)).seq
    ((Request.dropped workSource).seq ((Request.dropped kHeader).seq (Request.string16 str)))

variable {env : Env} {policy workSource : BitVec 32}

theorem Request.run_dropped_seq (v : BitVec 32) (s : Request) (p : Parcel) :
    ((Request.dropped v).seq s).run env p = s.run env (writeInt32 env v p).2 := rfl

theorem Request.run_token (p : Parcel) : (Request.token policy workSource str).run env p =
    writeString16 env str (afterHeader env policy workSource p) := by
  unfold Request.token afterHeader afterSource afterPolicy
  rw [Request.run_dropped_seq, Request.run_dropped_seq, Request.run_dropped_seq, Request.run_string16]

theorem Request.honest_dropped_seq {v : BitVec 32} {s : Request} (h : ((Request.dropped v).seq s).Honest env p)
    (hok : (s.run env (writeInt32 env v p).2).1 = .ok) : s.Honest env (writeInt32 env v p).2 := (h _ rfl hok).2

theorem Request.honest_token (h : (Request.token policy workSource str).Honest env p)
    (hok : (writeString16 env str (afterHeader env policy workSource p)).1 = .ok) :
    (Request.string16 str).Honest env (afterHeader env policy workSource p) := by
  rw [← Request.run_string16] at hok
  unfold afterHeader afterSource afterPolicy at hok ⊢
  have hrest := Request.honest_dropped_seq h (by rwa [Request.run_dropped_seq, Request.run_dropped_seq])
  have hrest' := Request.honest_dropped_seq hrest (by rwa [Request.run_dropped_seq])
  exact Request.honest_dropped_seq hrest' hok

theorem Request.bytes_token : (Request.token policy workSource str).bytes =
    wordBytes (policy ||| strictModePenaltyGather) ++ (wordBytes workSource ++ (wordBytes kHeader ++ stringBytes str)) := by
  rw [stringBytes, ← Request.bytes_string16]
  rfl

/-- A string that was stored is not too long to be read. -/
theorem Request.short_of_string16 (hhonest : (Request.string16 str).Honest env p)
    (hok : (writeString16 env str p).1 = .ok) : (str.length + 1) * 2 ≤ int32Max := by
  rw [← Request.run_string16] at hok
  cases hw : (Request.word (.ofNat 32 str.length)).run env p with
  | mk st q =>
    obtain rfl : st = .ok := by
      by_contra hst
      rw [Request.string16, Request.run_seq_of_ne hw hst] at hok
      exact hst hok
    rw [Request.string16, Request.run_seq_of_ok hw] at hok
    obtain ⟨-, hnull, -⟩ := hhonest q hw hok
    have hlen : [char16Bytes str, [0, 0]].flatten.length = (str.length + 1) * 2 := by
      simp
      ring
    by_contra hlong
    rw [← hlen, not_le] at hlong
    have hnone : writeInplace env [char16Bytes str, [0, 0]].flatten.length q = (none, q) := if_pos hlong
    have hsticky : stickyError [char16Bytes str, [0, 0]].flatten.length q = q.mError :=
      if_neg fun h => absurd h.1 (not_le.mpr hlong)
    have herror : q.mError = .ok := by
      change (fill env [char16Bytes str, [0, 0]] .sticky q).1 = .ok at hok
      rwa [fill, hnone] at hok
    rcases hnull (.inl hlong) with hzero | hne
    · rw [hlen] at hzero
      omega
    · exact hne (hsticky.trans herror)

theorem Holds.part {cs : List UInt8} (h : Holds p (as ++ (bs ++ cs))) :
    p.bytesAt (p.mDataPos + as.length) bs.length = bs := by
  obtain ⟨mem, hmem, -, hload⟩ := h
  have hrest := (Memory.load_eq_append.mp hload).2
  rw [Parcel.bytesAt, hmem]
  exact (Memory.load_eq_append.mp hrest).1

namespace Headed

variable {s : Headed} {interface : List (BitVec 16)}

theorem encodes_of_holds (h : Holds p (as ++ stringBytes interface))
    (hshort : (interface.length + 1) * 2 ≤ int32Max) (hclear : p.Clear (as ++ stringBytes interface).length) :
    Encodes p as.length interface := by
  have hsize := h.le_size
  have hlen : (char16Bytes interface ++ [0, 0]).length = (interface.length + 1) * 2 := by
    simp
    ring
  rw [length_append, length_stringBytes] at hsize hclear
  rw [stringBytes_eq] at h
  refine ⟨hshort, by omega, ?_, ?_, fun o ho => ?_⟩
  · have hword := h.part
    rwa [length_wordBytes] at hword
  · rw [padded, ← append_assoc as] at h
    have hchars := h.part
    rwa [length_append, length_wordBytes, hlen, ← Nat.add_assoc] at hchars
  · have hno := hclear o ho
    omega

/-- A token that was stored apart from the objects is accepted when the reader goes back to it. -/
theorem enforceInterface_written (hkernel : s.parcel.mSession = none)
    (hhonest : (Request.token policy workSource interface).Honest env s.parcel)
    (hok : (s.writeInterfaceToken env policy workSource interface).1 = .ok)
    (hclear : s.parcel.Clear (12 + (stringBytes interface).length)) {t : Headed}
    (ht : setDataPosition s.parcel.mDataPos (s.writeInterfaceToken env policy workSource interface).2.parcel =
      some t.parcel) : ∃ t', t.enforceInterface interface = some (true, t') := by
  have hnone : s.parcel.mSession.isNone := by rw [hkernel]; rfl
  obtain ⟨-, hparcel⟩ := setDataPosition_eq_some.mp ht
  have hwritten : (s.writeInterfaceToken env policy workSource interface).2.parcel =
      (writeString16 env interface (afterHeader env policy workSource s.parcel)).2 := by
    rw [parcel_writeInterfaceToken, if_pos hnone]
  have hstatus : (writeString16 env interface (afterHeader env policy workSource s.parcel)).1 = .ok := by
    rwa [status_writeInterfaceToken, if_pos hnone] at hok
  have hsession : t.parcel.mSession = none := by
    rw [hparcel, hwritten]
    refine writeString16_keeps (I := fun q => q.mSession = none) (fun hw h => hw.session.trans h) interface ?_
    exact afterHeader_keeps (I := fun q => q.mSession = none) (fun hw h => hw.session.trans h) hkernel
  have hobjects : t.parcel.mObjects = s.parcel.mObjects := by
    rw [hparcel, hwritten]
    exact (mObjects_writeString16 ..).trans mObjects_afterHeader
  have hguarded : Guarded t.parcel := by
    rw [hparcel]
    exact ⟨by simp, nofun⟩
  have hplaced := (Request.token policy workSource interface).placed hhonest (by rwa [Request.run_token])
  rw [Request.bytes_token, Request.run_token] at hplaced
  have hbytes : wordBytes (policy ||| strictModePenaltyGather) ++ wordBytes workSource ++ wordBytes kHeader ++
      stringBytes interface ≠ [] := by simp [wordBytes, leBytes]
  have hholds := hplaced.holds hbytes (hplaced.follows hbytes (hwritten ▸ ht))
  have hshort := Request.short_of_string16 (Request.honest_token hhonest hstatus) hstatus
  have htoken : IsToken t.parcel interface := by
    have hwords : (wordBytes (policy ||| strictModePenaltyGather) ++ wordBytes workSource ++ wordBytes kHeader).length =
        12 := by simp [length_wordBytes]
    have hclear' : t.parcel.Clear (12 + (stringBytes interface).length) := by
      intro o ho
      rw [hparcel]
      exact hclear o (hobjects ▸ ho)
    refine ⟨?_, ?_, hclear'.left⟩
    · rw [← append_assoc] at hholds
      have hheader := hholds.part
      rwa [length_append, length_wordBytes, length_wordBytes, length_wordBytes] at hheader
    · rw [← append_assoc, ← append_assoc] at hholds
      have hdescriptor := encodes_of_holds hholds hshort (by rwa [length_append, hwords])
      rwa [hwords] at hdescriptor
  obtain ⟨hheader, hdescriptor, -⟩ := isToken_iff.mp htoken
  obtain ⟨b, t', henforce, hb⟩ := enforceInterface_cases hsession hguarded interface
  obtain rfl : b = true := hb.mpr ⟨hheader, .inl hdescriptor⟩
  exact ⟨t', henforce⟩

/-- Where the header is there: no object lies over the policy and the work source in front of the expected descriptor,
and if that is empty, there is some descriptor. -/
def Unambiguous (p : Parcel) (interface : List (BitVec 16)) : Prop :=
  HeaderWord p → (Encodes p 12 interface → p.Clear 8) ∧ (interface = [] → ∃ str, Encodes p 12 str)

/-- `enforceInterface` accepts exactly the tokens where it cannot take a word that it could not read for a zero, or a
descriptor that it could not read for an empty one; and it accepts what `writeInterfaceToken` has stored. -/
theorem enforceInterface_accepts (s : Headed) (interface : List (BitVec 16)) (hkernel : s.parcel.mSession = none) :
    (Guarded s.parcel → ∃ b s', s.enforceInterface interface = some (b, s') ∧
      ((b = true ↔ IsToken s.parcel interface) ↔ Unambiguous s.parcel interface)) ∧
    ∀ env policy workSource (t : Headed), (Request.token policy workSource interface).Honest env s.parcel →
      (s.writeInterfaceToken env policy workSource interface).1 = .ok →
      s.parcel.Clear (12 + (stringBytes interface).length) →
      setDataPosition s.parcel.mDataPos (s.writeInterfaceToken env policy workSource interface).2.parcel =
        some t.parcel → ∃ t', t.enforceInterface interface = some (true, t') := by
  refine ⟨fun hg => ?_, fun env policy workSource t hhonest hok hclear ht => ?_⟩
  · obtain ⟨b, s', henforce, hb⟩ := enforceInterface_cases hkernel hg interface
    refine ⟨b, s', henforce, ?_⟩
    rw [hb, isToken_iff]
    by_cases hheader : HeaderWord s.parcel
    · simp only [hheader, true_and, Unambiguous, forall_const]
      constructor
      · intro h
        refine ⟨fun henc => (h.mp (.inl henc)).2, fun hnil => ?_⟩
        by_contra hno
        rw [not_exists] at hno
        exact hno _ (h.mp (.inr ⟨hnil, fun str _ => hno str⟩)).1
      · rintro ⟨hclear, hsome⟩
        refine ⟨?_, fun h => .inl h.1⟩
        rintro (henc | ⟨hnil, hno⟩)
        · exact ⟨henc, hclear henc⟩
        · obtain ⟨str, hstr⟩ := hsome hnil
          obtain rfl : str = [] := by
            by_contra hne
            exact hno str hne hstr
          rw [hnil] at hclear ⊢
          exact ⟨hstr, hclear hstr⟩
    · simp [hheader, Unambiguous]
  · exact enforceInterface_written hkernel hhonest hok hclear ht

/-- A token in a new parcel. -/
theorem enforceInterface_accepts_new : ∃ t t' : Headed, setDataPosition 0
    (({} : Headed).writeInterfaceToken zeroEnv 0 1000 [0x41]).2.parcel = some t.parcel ∧
      t.enforceInterface [0x41] = some (true, t') := by
  have hhonest : (Request.token 0 1000 [0x41]).Honest zeroEnv {} := by
    intro q₁ h₁ _
    obtain rfl := (Prod.mk.inj h₁).2
    refine ⟨⟨by decide, by decide⟩, fun q₂ h₂ _ => ?_⟩
    obtain rfl := (Prod.mk.inj h₂).2
    refine ⟨⟨by decide, by decide⟩, fun q₃ h₃ _ => ?_⟩
    obtain rfl := (Prod.mk.inj h₃).2
    refine ⟨⟨by decide, by decide⟩, fun q₄ h₄ _ => ?_⟩
    obtain rfl := (Prod.mk.inj h₄).2
    exact ⟨fun _ => by decide, by decide, fun _ => ⟨by decide, by decide⟩⟩
  obtain ⟨p, hp⟩ : ∃ p, setDataPosition 0 (({} : Headed).writeInterfaceToken zeroEnv 0 1000 [0x41]).2.parcel = some p :=
    ⟨_, rfl⟩
  obtain ⟨t', ht'⟩ := (enforceInterface_accepts {} [0x41] rfl).2 zeroEnv 0 1000 { parcel := p } hhonest (by decide)
    (by decide) hp
  exact ⟨{ parcel := p }, t', hp, ht'⟩

def headerBytes : List UInt8 := wordBytes 0 ++ wordBytes 0 ++ wordBytes kHeader

/-- A header with nothing behind it passes for a token with an empty descriptor; and one that starts inside an object
passes for a whole one. -/
theorem enforceInterface_accepts_no_token :
    let s : Headed := { parcel := { mData := some (.ofBytes headerBytes), mDataSize := 12, mDataCapacity := 12 } }
    let t : Headed := { parcel := {
      mData := some (.ofBytes (List.replicate 16 0 ++ headerBytes ++ stringBytes [0x41]))
      mDataSize := 36, mDataCapacity := 36, mObjects := [0], mDataPos := 16 } }
    Guarded s.parcel ∧ (s.enforceInterface []).map Prod.fst = some true ∧ ¬ IsToken s.parcel [] ∧
      Guarded t.parcel ∧ (t.enforceInterface [0x41]).map Prod.fst = some true ∧ ¬ IsToken t.parcel [0x41] := by
  intro s t
  refine ⟨⟨by simp [s], nofun⟩, by decide, fun h => ?_, ⟨by simp [t], nofun⟩, by decide, fun h => ?_⟩
  · exact absurd h.descriptor.inData (by decide)
  · exact absurd h.clear (by decide)

end Headed

end Binder.Parcel
