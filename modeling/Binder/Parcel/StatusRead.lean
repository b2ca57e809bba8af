import Binder.Parcel.RoundTrip
import Binder.Parcel.Token

/-! Which bytes `binder::Status` is read from, and how far the reader moves. -/
namespace Binder.Parcel
open Binder.Lib Fallible List

variable {p q r : Parcel} {off m n : ℕ} {v : BitVec 32}

/-! ### Words and messages in the data -/

/-- The word at `off` behind the position is `v`, and no object lies over it. -/
structure WordAt (p : Parcel) (off : ℕ) (v : BitVec 32) : Prop where
  inData : p.mDataPos + off + 4 ≤ p.mDataSize
  bytes : p.bytesAt (p.mDataPos + off) 4 = wordBytes v
  clear : p.ClearFrom off (off + 4)

theorem WordAt.moved (hp : Passed p off r) : WordAt r 0 v ↔ WordAt p off v := by
  have hpos := hp.pos
  have hbytes : r.bytesAt (r.mDataPos + 0) 4 = p.bytesAt (p.mDataPos + off) 4 := by
    rw [bytesAt, bytesAt, hp.data, hpos, Nat.add_zero]
  have hclear : r.ClearFrom 0 (0 + 4) ↔ p.ClearFrom off (off + 4) := by
    constructor
    · intro h o ho
      have hno := h o (hp.objects.mem_iff.mpr ho)
      omega
    · intro h o ho
      have hno := h o (hp.objects.mem_iff.mp ho)
      omega
  constructor
  · rintro ⟨hin, hword, hno⟩
    rw [hp.size, hpos] at hin
    exact ⟨hin, hbytes ▸ hword, hclear.mp hno⟩
  · rintro ⟨hin, hword, hno⟩
    refine ⟨?_, hbytes ▸ hword, hclear.mpr hno⟩
    rw [hp.size, hpos]
    exact hin

theorem WordAt.data (h : WordAt p off v) : ∃ mem, p.mData = some mem := by
  obtain ⟨b, bs, hword⟩ := wordBytes_ne v
  exact bytesAt_ne (h.bytes.trans hword)

theorem WordAt.returns (hg : Guarded p) (h : WordAt p 0 v) : ∃ q, Returns readInt32 p v q ∧ Passed p 4 q := by
  obtain ⟨mem, hmem⟩ := h.data
  obtain ⟨r, hr, hp⟩ := passOver_cases (n := 4) hg
  have hval := (ofNat_leNat_eq_iff (length_bytesAt hmem) v).mpr h.bytes
  refine ⟨r.log [.load p.mDataPos 4], returns_readInt32.mpr ⟨_, ?_, hval⟩, hp.log⟩
  rw [returns_readAligned hg]
  exact ⟨h.inData, h.clear, rfl, by rw [hr]⟩

variable {mem : Memory} {len : ℕ} {message : Option String16}

theorem wordAt_of_returns (hg : Guarded p) (hmem : p.mData = some mem) (h : Returns readInt32 p v q) :
    WordAt p 0 v := by
  obtain ⟨bs, hbs, hval⟩ := returns_readInt32.mp h
  obtain ⟨hsize, hclear, rfl, -⟩ := (returns_readAligned hg).mp hbs
  exact ⟨hsize, (ofNat_leNat_eq_iff (length_bytesAt hmem) v).mp hval, hclear⟩

theorem wordAt_of_holds (h : Holds p (wordBytes v)) (hc : p.Clear 4) : WordAt p 0 v := by
  have hin := h.le_size
  have hbytes := h.bytesAt
  exact ⟨hin, hbytes, hc⟩

/-- A word that is not zero does not come from missing memory. -/
theorem data_of_returns (hg : Guarded p) (h : Returns readInt32 p v q) (hv : v ≠ 0) : ∃ mem, p.mData = some mem := by
  obtain ⟨bs, hbs, hval⟩ := returns_readInt32.mp h
  obtain ⟨-, -, rfl, -⟩ := (returns_readAligned hg).mp hbs
  cases hmem : p.mData with
  | none =>
    rw [bytesAt, hmem] at hval
    exact absurd hval.symm hv
  | some mem => exact ⟨mem, rfl⟩

/-- The `n` bytes at `off` behind the position are a message: a null string, or a string. -/
inductive MessageAt (p : Parcel) (off : ℕ) : ℕ → Prop
  | null : WordAt p off (-1) → MessageAt p off 4
  | string (str : List (BitVec 16)) : Encodes p off str → MessageAt p off (4 + padSize ((str.length + 1) * 2))

theorem MessageAt.moved (hp : Passed p off r) : MessageAt r 0 n ↔ MessageAt p off n := by
  constructor
  · intro h
    cases h with
    | null hword => exact .null ((WordAt.moved hp).mp hword)
    | string str henc => exact .string str ((Encodes.moved hp).mp henc)
  · intro h
    cases h with
    | null hword => exact .null ((WordAt.moved hp).mpr hword)
    | string str henc => exact .string str ((Encodes.moved hp).mpr henc)

/-! ### Reads that move forward -/

/-- `q` comes from `p` by reads that all end at its position or before it. -/
structure Advanced (p q : Parcel) : Prop where
  pos : p.mDataPos ≤ q.mDataPos
  loads : ∃ es, q.events = es ++ p.events ∧ ∀ off len, Event.load off len ∈ es → off + len ≤ q.mDataPos

theorem Advanced.refl (p : Parcel) : Advanced p p := ⟨le_rfl, [], rfl, fun _ _ h => by cases h⟩

theorem Advanced.trans (h : Advanced p q) (h' : Advanced q r) : Advanced p r := by
  have hpos := h.pos
  have hpos' := h'.pos
  obtain ⟨es, hes, hload⟩ := h.loads
  obtain ⟨es', hes', hload'⟩ := h'.loads
  refine ⟨hpos.trans hpos', es' ++ es, by rw [hes', hes, append_assoc], fun off len hmem => ?_⟩
  rcases mem_append.mp hmem with hmem | hmem
  · exact hload' off len hmem
  · exact (hload off len hmem).trans hpos'

theorem Advanced.congr {p' q' : Parcel} (h : Advanced p q) (hpos : p'.mDataPos = p.mDataPos)
    (hevents : p'.events = p.events) (hpos' : q.mDataPos ≤ q'.mDataPos) (hevents' : q'.events = q.events) :
    Advanced p' q' := by
  obtain ⟨es, hes, hload⟩ := h.loads
  refine ⟨hpos.trans_le (h.pos.trans hpos'), es, by rw [hevents', hes, hevents], fun off len hmem => ?_⟩
  exact (hload off len hmem).trans hpos'

theorem advanced_passOver (p : Parcel) (n : ℕ) : Advanced p (passOver n p).2 := by
  obtain ⟨st, objs, hint, flag, -, h⟩ := passOver_eq n p
  rw [h]
  exact (Advanced.refl p).congr rfl rfl (Nat.le_add_right _ _) rfl

theorem advanced_load (hlen : len ≤ n) : Advanced p ((passOver n p).2.log [.load p.mDataPos len]) := by
  obtain ⟨st, objs, hint, flag, -, h⟩ := passOver_eq n p
  rw [h]
  refine ⟨Nat.le_add_right _ _, [.load p.mDataPos len], rfl, fun off len' hmem => ?_⟩
  cases mem_singleton.mp hmem
  exact Nat.add_le_add_left hlen _

theorem advanced_readInt32 (hg : Guarded p) (h : Returns readInt32 p v q) : Advanced p q := by
  obtain ⟨bs, hbs, -⟩ := returns_readInt32.mp h
  obtain ⟨-, -, -, rfl⟩ := (returns_readAligned hg).mp hbs
  exact advanced_load le_rfl

theorem events_readInt32 (hg : Guarded p) (h : Returns readInt32 p v q) :
    q.events = .load p.mDataPos 4 :: p.events := by
  obtain ⟨bs, hbs, -⟩ := returns_readInt32.mp h
  obtain ⟨-, -, -, rfl⟩ := (returns_readAligned hg).mp hbs
  obtain ⟨st, objs, hint, flag, -, h⟩ := passOver_eq 4 p
  rw [h]
  rfl

theorem advanced_readInt32OrZero (hg : Guarded p) (h : Returns readInt32OrZero p v q) : Advanced p q := by
  rcases returns_readInt32OrZero.mp h with hword | ⟨-, e, hfail⟩
  · exact advanced_readInt32 hg hword
  · rcases (fails_readInt32 hg).mp hfail with ⟨-, -, rfl⟩ | ⟨-, -, -, rfl⟩
    · exact .refl _
    · exact advanced_passOver p 4

theorem guarded_readInt32OrZero (hg : Guarded p) (h : Returns readInt32OrZero p v q) : Guarded q := by
  rcases readInt32OrZero_cases hg with ⟨-, r, hp, hr⟩ | ⟨-, hr⟩
  · obtain ⟨-, rfl⟩ := hr.unique h
    exact hp.guarded
  · obtain ⟨-, rfl⟩ := hr.unique h
    exact hg

theorem advanced_readString16Inplace (hg : Guarded p)
    (h : Returns readString16Inplace p (some (mem, len)) q) : Advanced p q := by
  obtain ⟨v, r, hv, -, -, hread, -⟩ := returns_readString16Inplace.mp h
  have hgr := guarded_readInt32OrZero hg hv
  obtain ⟨-, -, -, -, rfl⟩ := (returns_readInplace hgr).mp hread
  exact (advanced_readInt32OrZero hg hv).trans (advanced_load (le_padSize _))

theorem returns_readString16 {str : List (BitVec 16)} : Returns readString16 p str q ↔
    ∃ mem len, Returns readString16Inplace p (some (mem, len)) q ∧ (List.range len).map (charAt mem) = str := by
  unfold readString16
  rw [returns_bind]
  constructor
  · rintro ⟨_ | ⟨mem, len⟩, r, hread, hrest⟩
    · simp at hrest
    · obtain ⟨hstr, rfl⟩ := returns_pure.mp hrest
      exact ⟨mem, len, hread, hstr⟩
  · rintro ⟨mem, len, hread, rfl⟩
    exact ⟨some (mem, len), q, hread, returns_pure.mpr ⟨rfl, rfl⟩⟩

/-! ### The parts of a status -/

/-- The form of `readString16` for a string that may be null. -/
theorem returns_readMessage : Returns (readPlain (.nullable .string16)) p message q ↔
    ∃ peek r, Returns readInt32 p peek r ∧ (peek = -1 ∧ message = none ∧ q = r ∨ peek ≠ -1 ∧ ∃ r' str,
      setDataPosition p.mDataPos r = some r' ∧ Returns readString16 r' str q ∧ message = some str) :=
  returns_readNullable _ _

theorem messageAt_of_returns (hg : Guarded p) (hmem : p.mData = some mem)
    (h : Returns (readPlain (.nullable .string16)) p message q) :
    ∃ n, MessageAt p 0 n ∧ Passed p n q ∧ Advanced p q := by
  obtain ⟨peek, r, hpeek, hrest⟩ := returns_readMessage.mp h
  have hword := wordAt_of_returns hg hmem hpeek
  obtain ⟨hp, -⟩ := readInt32_passed hg hpeek
  have hadv := advanced_readInt32 hg hpeek
  rcases hrest with ⟨rfl, -, rfl⟩ | ⟨-, r', str, hrewind, hread, -⟩
  · exact ⟨4, .null hword, hp, hadv⟩
  · have hp' : Passed p 0 r' := hp.placed hrewind
    obtain ⟨mem', len, hinplace, rfl⟩ := returns_readString16.mp hread
    have hword' : WordAt r' 0 peek := (WordAt.moved hp').mpr hword
    obtain ⟨t, ht, -⟩ := hword'.returns hp'.guarded
    have henc := encodes_of_returns hp'.guarded hinplace fun _ => ⟨peek, t, ht⟩
    obtain ⟨hstr, -⟩ := readString16Inplace_passed hp'.guarded hinplace
    have hadv' := advanced_readString16Inplace hp'.guarded hinplace
    have hlen : ((List.range len).map (charAt mem')).length = len := by simp
    refine ⟨_, .string _ ((Encodes.moved hp').mp henc), ?_, ?_⟩
    · rw [hlen]
      simpa using hp'.trans hstr
    · -- the word that was looked at is the first one of the string
      obtain ⟨-, rfl⟩ := setDataPosition_eq_some.mp hrewind
      obtain ⟨es, hes, hload⟩ := hadv.loads
      obtain ⟨es', hes', hload'⟩ := hadv'.loads
      have hend := hstr.pos
      have hpos := hp.pos
      dsimp only at hes' hend
      refine ⟨by omega, es' ++ es, by rw [hes', hes, append_assoc], fun off len' hm => ?_⟩
      rcases mem_append.mp hm with hm | hm
      · exact hload' off len' hm
      · have := hload off len' hm
        omega

theorem MessageAt.returns (hr : Readable p) (h : MessageAt p 0 n) :
    ∃ (message : Option String16) (q : Parcel), Returns (readPlain (.nullable .string16)) p message q ∧ Passed p n q := by
  simp only [returns_readMessage]
  cases h with
  | null hword =>
    obtain ⟨q, hq, hp⟩ := hword.returns hr.toGuarded
    exact ⟨none, q, ⟨_, q, hq, .inl ⟨rfl, rfl, rfl⟩⟩, hp⟩
  | string str henc =>
    have hword : WordAt p 0 (.ofNat 32 str.length) := by
      have hin := henc.inData
      refine ⟨by omega, henc.length, fun o ho => ?_⟩
      have := henc.clear o ho
      omega
    obtain ⟨r, hpeek, hp⟩ := hword.returns hr.toGuarded
    have hshort := henc.short
    have hin := henc.inData
    have hmax := hr.size
    obtain ⟨r', hrewind⟩ : ∃ r', setDataPosition p.mDataPos r = some r' :=
      ⟨_, setDataPosition_eq_some.mpr ⟨by omega, rfl⟩⟩
    obtain ⟨hr', hp'⟩ := hp.rewound hr hrewind
    obtain ⟨mem, q, hread, hstr⟩ := ((Encodes.moved hp').mpr henc).returns hr'.toGuarded
    obtain ⟨hpassed, -⟩ := readString16Inplace_passed hr'.toGuarded hread
    have hne : BitVec.ofNat 32 str.length ≠ -1 := by
      intro heq
      have hval := congrArg BitVec.toNat heq
      rw [toNat_ofNat_of_le (by omega)] at hval
      have hneg : (-1 : BitVec 32).toNat = 2 ^ 32 - 1 := by decide
      have hmax' : int32Max = 2 ^ 31 - 1 := rfl
      omega
    refine ⟨some str, q, ⟨_, r, hpeek, .inr ⟨hne, r', str, hrewind, ?_, rfl⟩⟩, ?_⟩
    · exact returns_readString16.mpr ⟨mem, _, hread, hstr⟩
    · simpa using hp'.trans hpassed

namespace BinderStatus

variable {u : Unit}

theorem returns_skipHeader : Returns skipHeader p u q ↔ ∃ avail v r, p.dataAvail = some avail ∧
    Returns readInt32 p v r ∧ 0 ≤ v.toInt ∧ v.toNat ≤ avail ∧ setDataPosition (p.mDataPos + v.toNat) r = some q := by
  unfold skipHeader
  simp only [returns_bind, returns_dataPosition, returns_readAvail, returns_ite, not_returns_throw, and_false, false_or,
    not_or, not_lt, returns_rewind]
  constructor
  · rintro ⟨_, _, ⟨rfl, rfl⟩, avail, _, ⟨havail, rfl⟩, v, r, hword, ⟨hpos, hle⟩, hq⟩
    exact ⟨avail, v, r, havail, hword, hpos, hle, hq⟩
  · rintro ⟨avail, v, r, havail, hword, hpos, hle, hq⟩
    exact ⟨_, _, ⟨rfl, rfl⟩, avail, _, ⟨havail, rfl⟩, v, r, hword, ⟨hpos, hle⟩, hq⟩

theorem returns_skipStackTrace : Returns skipStackTrace p u q ↔ ∃ v r avail, Returns readInt32 p v r ∧
    0 ≤ v.toInt ∧ r.dataAvail = some avail ∧ v.toNat ≤ avail ∧ setDataPosition (r.mDataPos + v.toNat) r = some q := by
  unfold skipStackTrace
  simp only [returns_bind, returns_dataPosition, returns_readAvail, returns_ite, not_returns_throw, and_false, false_or,
    not_lt, returns_rewind]
  constructor
  · rintro ⟨v, r, hword, hpos, avail, _, ⟨havail, rfl⟩, hle, _, _, ⟨rfl, rfl⟩, hq⟩
    exact ⟨v, _, avail, hword, hpos, havail, hle, hq⟩
  · rintro ⟨v, r, avail, hword, hpos, havail, hle, hq⟩
    exact ⟨v, r, hword, hpos, avail, _, ⟨havail, rfl⟩, hle, _, _, ⟨rfl, rfl⟩, hq⟩

theorem dataAvail_eq {avail : ℕ} (h : p.dataAvail = some avail) (hpos : p.mDataPos ≤ p.mDataSize) :
    avail = p.mDataSize - p.mDataPos := by
  have hdata : p.dataSize = p.mDataSize := by
    unfold dataSize
    split <;> omega
  unfold Parcel.dataAvail at h
  rw [hdata] at h
  dsimp only at h
  split_ifs at h
  exact (Option.some.inj h).symm

theorem stackTrace_of_returns (hg : Guarded p) (hmem : p.mData = some mem)
    (h : Returns skipStackTrace p () q) : ∃ v, WordAt p 0 v ∧ 0 ≤ v.toInt ∧
      p.mDataPos + (4 + v.toNat) ≤ p.mDataSize ∧ Passed p (4 + v.toNat) q ∧ Advanced p q := by
  obtain ⟨v, r, avail, hread, hpos, havail, hle, hq⟩ := returns_skipStackTrace.mp h
  have hword := wordAt_of_returns hg hmem hread
  obtain ⟨hp, -⟩ := readInt32_passed hg hread
  have hin := hword.inData
  have hrpos := hp.pos
  have hrsize := hp.size
  rw [dataAvail_eq havail (by omega)] at hle
  refine ⟨v, hword, hpos, by omega, hp.placed ?_, ?_⟩
  · rwa [hrpos, Nat.add_assoc] at hq
  · obtain ⟨-, rfl⟩ := setDataPosition_eq_some.mp hq
    exact (advanced_readInt32 hg hread).congr rfl rfl (Nat.le_add_right _ _) rfl

theorem returns_stackTrace (hr : Readable p) (hword : WordAt p 0 v) (hpos : 0 ≤ v.toInt)
    (hin : p.mDataPos + (4 + v.toNat) ≤ p.mDataSize) :
    ∃ q, Returns skipStackTrace p () q ∧ Passed p (4 + v.toNat) q := by
  obtain ⟨r, hread, hp⟩ := hword.returns hr.toGuarded
  have hrpos := hp.pos
  have hrsize := hp.size
  have hmax := hr.size
  obtain ⟨q, hq⟩ : ∃ q, setDataPosition (r.mDataPos + v.toNat) r = some q :=
    ⟨_, setDataPosition_eq_some.mpr ⟨by omega, rfl⟩⟩
  have havail := (hr.after hp).dataAvail (by omega)
  refine ⟨q, returns_skipStackTrace.mpr ⟨v, r, _, hread, hpos, havail, by omega, hq⟩, hp.placed ?_⟩
  rwa [hrpos, Nat.add_assoc] at hq

/-- A header ends where its size says, also inside the size. -/
theorem header_of_returns (hg : Guarded p) (hmem : p.mData = some mem)
    (h : Returns skipHeader p () q) : ∃ v, WordAt p 0 v ∧ q.mDataPos = p.mDataPos + v.toNat ∧
      q.mDataSize = p.mDataSize ∧ q.mDataPos ≤ p.mDataSize ∧ q.events = .load p.mDataPos 4 :: p.events := by
  obtain ⟨avail, v, r, havail, hread, -, hle, hq⟩ := returns_skipHeader.mp h
  have hword := wordAt_of_returns hg hmem hread
  obtain ⟨hp, -⟩ := readInt32_passed hg hread
  have hin := hword.inData
  rw [dataAvail_eq havail (by omega)] at hle
  have hevents := events_readInt32 hg hread
  obtain ⟨-, rfl⟩ := setDataPosition_eq_some.mp hq
  refine ⟨v, hword, rfl, hp.size, ?_, hevents⟩
  dsimp only
  omega

theorem returns_header (hr : Readable p) (hword : WordAt p 0 v) (hsmall : v.toNat < 4) :
    ∃ q, Returns skipHeader p () q ∧ q.mDataPos = p.mDataPos + v.toNat := by
  obtain ⟨r, hread, -⟩ := hword.returns hr.toGuarded
  have hin := hword.inData
  have hmax := hr.size
  have hpos : 0 ≤ v.toInt := by
    rw [BitVec.toInt_eq_toNat_of_lt (by omega)]
    omega
  have havail := hr.dataAvail (by omega)
  have hq := setDataPosition_eq_some (p := r).mpr ⟨(by omega : p.mDataPos + v.toNat ≤ int32Max), rfl⟩
  exact ⟨_, returns_skipHeader.mpr ⟨_, v, r, havail, hread, hpos, by omega, hq⟩, rfl⟩

/-! ### Size fields -/

/-- The reader takes the word at `off` behind the position for the size of a header: that of a reply, or that of the
parcelable behind the message and the stack trace of an exception. -/
inductive SizeField (p : Parcel) : ℕ → Prop
  | reply : WordAt p 0 exHasReplyHeader → SizeField p 4
  | blob {n : ℕ} {v : BitVec 32} : WordAt p 0 exParcelable → MessageAt p 4 n → WordAt p (4 + n) v → 0 ≤ v.toInt →
      p.mDataPos + (4 + n + (4 + v.toNat)) ≤ p.mDataSize → SizeField p (4 + n + (4 + v.toNat))

variable {s s' : BinderStatus} {code : BitVec 32}

theorem returns_readFields : Returns (readFields s) p s' q ↔ ∃ code r, Returns readInt32 p code r ∧
    (code = exHasReplyHeader ∧ Returns skipHeader r () q ∧ s' = { s with mException := exNone } ∨
      code ≠ exHasReplyHeader ∧ code = exNone ∧ q = r ∧ s' = { s with mException := exNone } ∨
      code ≠ exHasReplyHeader ∧ code ≠ exNone ∧ Returns (readException code s) r s' q) := by
  unfold readFields
  simp only [returns_bind, returns_ite, returns_pure]
  constructor
  · rintro ⟨code, r, hread, ⟨hreply, u, t, hskip, rfl, rfl⟩ | ⟨hreply, ⟨hnone, rfl, rfl⟩ | ⟨hnone, hrest⟩⟩⟩
    · exact ⟨code, r, hread, .inl ⟨hreply, hskip, rfl⟩⟩
    · exact ⟨code, r, hread, .inr (.inl ⟨hreply, hnone, rfl, rfl⟩)⟩
    · exact ⟨code, r, hread, .inr (.inr ⟨hreply, hnone, hrest⟩)⟩
  · rintro ⟨code, r, hread, ⟨hreply, hskip, rfl⟩ | ⟨hreply, hnone, rfl, rfl⟩ | ⟨hreply, hnone, hrest⟩⟩
    · exact ⟨code, r, hread, .inl ⟨hreply, (), q, hskip, rfl, rfl⟩⟩
    · exact ⟨code, _, hread, .inr ⟨hreply, .inl ⟨hnone, rfl, rfl⟩⟩⟩
    · exact ⟨code, r, hread, .inr ⟨hreply, .inr ⟨hnone, hrest⟩⟩⟩

theorem returns_readException : Returns (readException code s) p s' q ↔
    ∃ (message : Option String16) (r t : Parcel), Returns (readPlain (.nullable .string16)) p message r ∧
      Returns skipStackTrace r () t ∧
      (code = exServiceSpecific ∧ (∃ c, Returns readInt32 t c q ∧
          s' = { mException := code, mErrorCode := .serviceSpecific c, mMessage := message.getD [] }) ∨
        code ≠ exServiceSpecific ∧ code = exParcelable ∧ Returns skipHeader t () q ∧
          s' = { s with mException := code, mMessage := message.getD [] } ∨
        code ≠ exServiceSpecific ∧ code ≠ exParcelable ∧ q = t ∧
          s' = { s with mException := code, mMessage := message.getD [] }) := by
  unfold readException
  simp only [returns_bind, returns_ite, returns_pure]
  constructor
  · rintro ⟨message, r, hmessage, u, t, hskip, ⟨hservice, c, t', hread, rfl, rfl⟩ |
      ⟨hservice, ⟨hblob, u', t', hheader, rfl, rfl⟩ | ⟨hblob, rfl, rfl⟩⟩⟩
    · exact ⟨message, r, t, hmessage, hskip, .inl ⟨hservice, c, hread, rfl⟩⟩
    · exact ⟨message, r, t, hmessage, hskip, .inr (.inl ⟨hservice, hblob, hheader, rfl⟩)⟩
    · exact ⟨message, r, t, hmessage, hskip, .inr (.inr ⟨hservice, hblob, rfl, rfl⟩)⟩
  · rintro ⟨message, r, t, hmessage, hskip, ⟨hservice, c, hread, rfl⟩ | ⟨hservice, hblob, hheader, rfl⟩ |
      ⟨hservice, hblob, rfl, rfl⟩⟩
    · exact ⟨message, r, hmessage, (), t, hskip, .inl ⟨hservice, c, q, hread, rfl, rfl⟩⟩
    · exact ⟨message, r, hmessage, (), t, hskip, .inr ⟨hservice, .inl ⟨hblob, (), q, hheader, rfl, rfl⟩⟩⟩
    · exact ⟨message, r, hmessage, (), _, hskip, .inr ⟨hservice, .inr ⟨hblob, rfl, rfl⟩⟩⟩

/-- A status that is read either moves forward only, or ends with a header. -/
theorem header_of_readFields (hg : Guarded p) (h : Returns (readFields s) p s' q) :
    (Advanced p q ∧ q.mDataPos ≤ q.mDataSize) ∨ ∃ off r, SizeField p off ∧ Passed p off r ∧ Advanced p r ∧
      (∃ mem, r.mData = some mem) ∧ Returns skipHeader r () q := by
  obtain ⟨code, r, hcode, hrest⟩ := returns_readFields.mp h
  obtain ⟨hp, -⟩ := readInt32_passed hg hcode
  have hadv := advanced_readInt32 hg hcode
  rcases hrest with ⟨rfl, hskip, -⟩ | ⟨-, rfl, rfl, -⟩ | ⟨-, hnone, hrest⟩
  · obtain ⟨mem, hmem⟩ := data_of_returns hg hcode (by decide)
    exact .inr ⟨4, r, .reply (wordAt_of_returns hg hmem hcode), hp, hadv, ⟨mem, hp.data.trans hmem⟩, hskip⟩
  · obtain ⟨bs, hbs, -⟩ := returns_readInt32.mp hcode
    obtain ⟨hin, -⟩ := (returns_readAligned hg).mp hbs
    refine .inl ⟨hadv, ?_⟩
    rw [hp.pos, hp.size]
    exact hin
  · obtain ⟨mem, hmem⟩ := data_of_returns hg hcode hnone
    obtain ⟨message, r₁, r₂, hmessage, hskip, hrest⟩ := returns_readException.mp hrest
    obtain ⟨n, hn, hp₁, hadv₁⟩ := messageAt_of_returns hp.guarded (hp.data.trans hmem) hmessage
    have hp₁ := hp.trans hp₁
    have hmem₁ := hp₁.data.trans hmem
    obtain ⟨v, hword, hpos, hin, hp₂, hadv₂⟩ := stackTrace_of_returns hp₁.guarded hmem₁ hskip
    have hadv₂ := (hadv.trans hadv₁).trans hadv₂
    rw [hp₁.pos, hp₁.size, Nat.add_assoc] at hin
    have hp₂ := hp₁.trans hp₂
    rcases hrest with ⟨-, c, hread, -⟩ | ⟨-, rfl, hheader, -⟩ | ⟨-, -, rfl, -⟩
    · obtain ⟨hp₃, -⟩ := readInt32_passed hp₂.guarded hread
      obtain ⟨bs, hbs, -⟩ := returns_readInt32.mp hread
      obtain ⟨hin', -⟩ := (returns_readAligned hp₂.guarded).mp hbs
      refine .inl ⟨hadv₂.trans (advanced_readInt32 hp₂.guarded hread), ?_⟩
      rw [hp₃.pos, hp₃.size]
      exact hin'
    · have hfield := SizeField.blob (wordAt_of_returns hg hmem hcode) ((MessageAt.moved hp).mp hn)
        ((WordAt.moved hp₁).mp hword) hpos hin
      exact .inr ⟨_, r₂, hfield, hp₂, hadv₂, ⟨mem, hp₂.data.trans hmem⟩, hheader⟩
    · refine .inl ⟨hadv₂, ?_⟩
      rw [hp₂.pos, hp₂.size]
      exact hin

/-- The reader comes to every size field that the content has. -/
theorem SizeField.reached {off : ℕ} (hr : Readable p) (h : SizeField p off) (s : BinderStatus) :
    ∃ r, Passed p off r ∧ Advanced p r ∧ ∀ q, Returns skipHeader r () q → ∃ s', Returns (readFields s) p s' q := by
  have hg := hr.toGuarded
  cases h with
  | reply hcode =>
    obtain ⟨r, hread, hp⟩ := hcode.returns hg
    refine ⟨r, hp, advanced_readInt32 hg hread, fun q hq => ?_⟩
    exact ⟨_, returns_readFields.mpr ⟨_, r, hread, .inl ⟨rfl, hq, rfl⟩⟩⟩
  | @blob n v hcode hmessage hword hpos hin =>
    obtain ⟨mem, hmem⟩ := hcode.data
    obtain ⟨r, hread, hp⟩ := hcode.returns hg
    obtain ⟨message, r₁, hmessage, hp₁⟩ := ((MessageAt.moved hp).mpr hmessage).returns (hr.after hp)
    obtain ⟨-, -, -, hadv₁⟩ := messageAt_of_returns hp.guarded (hp.data.trans hmem) hmessage
    have hp₁ := hp.trans hp₁
    have hin' : r₁.mDataPos + (4 + v.toNat) ≤ r₁.mDataSize := by
      rw [hp₁.pos, hp₁.size, Nat.add_assoc]
      exact hin
    obtain ⟨r₂, hskip, hp₂⟩ := returns_stackTrace (hr.after hp₁) ((WordAt.moved hp₁).mpr hword) hpos hin'
    obtain ⟨-, -, -, -, -, hadv₂⟩ := stackTrace_of_returns hp₁.guarded (hp₁.data.trans hmem) hskip
    have hadv := ((advanced_readInt32 hg hread).trans hadv₁).trans hadv₂
    refine ⟨r₂, hp₁.trans hp₂, hadv, fun q hq => ?_⟩
    have hexception : Returns (readException exParcelable s) r
        { s with mException := exParcelable, mMessage := message.getD [] } q :=
      returns_readException.mpr ⟨message, r₁, r₂, hmessage, hskip, .inr (.inl ⟨by decide, rfl, hq, rfl⟩)⟩
    exact ⟨_, returns_readFields.mpr ⟨_, r, hread, .inr (.inr ⟨by decide, by decide, hexception⟩)⟩⟩

/-! ### Errors -/

theorem failsOnly_readAligned (n : ℕ) : FailsOnly (· ≠ .ok) (readAligned n) := by
  refine .ofFun fun p e h => ?_
  split_ifs at h
  · cases hpass : passOver n p with
    | mk st =>
      rw [hpass] at h
      cases st <;> cases h <;> nofun
  · cases h
    decide

theorem failsOnly_readInt32 : FailsOnly (· ≠ .ok) readInt32 := (failsOnly_readAligned 4).bind fun _ => .pure

theorem failsOnly_rewind (pos : ℕ) : FailsOnly (· ≠ .ok) (rewind pos) := by
  refine .mk fun p e q h => ?_
  obtain ⟨r, -, h⟩ := Option.map_eq_some_iff.mp h
  cases h

theorem failsOnly_readAvail : FailsOnly (· ≠ .ok) readAvail := by
  refine .mk fun p e q h => ?_
  obtain ⟨n, -, h⟩ := Option.map_eq_some_iff.mp h
  cases h

theorem failsOnly_dataPosition : FailsOnly (· ≠ .ok) dataPosition := .ofFun fun _ _ h => by cases h

theorem failsOnly_readInplace (len : ℕ) : FailsOnly (· ≠ .ok) (readInplace len) := by
  refine .mk fun p e q h => ?_
  obtain ⟨mem, r, hread⟩ := exists_returns_readInplace len p
  cases hread.symm.trans h

theorem failsOnly_readString16Inplace : FailsOnly (· ≠ .ok) readString16Inplace := by
  refine .bind (.tryCatch fun _ => .pure) fun size => .ite ((failsOnly_readInplace _).bind fun mem => ?_) .pure
  cases mem with
  | none => exact .pure
  | some => exact .ite .pure .pure

theorem failsOnly_readString16 : FailsOnly (· ≠ .ok) readString16 := by
  refine failsOnly_readString16Inplace.bind fun str => ?_
  cases str with
  | none => exact .throw (by decide)
  | some => exact .pure

theorem failsOnly_readMessage : FailsOnly (· ≠ .ok) (readPlain (.nullable .string16)) := by
  refine failsOnly_dataPosition.bind fun pos => failsOnly_readInt32.bind fun peek => .ite .pure ?_
  exact (failsOnly_rewind pos).bind fun _ => failsOnly_readString16.bind fun _ => .pure

theorem failsOnly_skipHeader : FailsOnly (· ≠ .ok) skipHeader := by
  refine failsOnly_dataPosition.bind fun pos => failsOnly_readAvail.bind fun avail => failsOnly_readInt32.bind fun v => ?_
  exact .ite (.throw (by decide)) (failsOnly_rewind _)

theorem failsOnly_skipStackTrace : FailsOnly (· ≠ .ok) skipStackTrace := by
  refine failsOnly_readInt32.bind fun v => .ite (.throw (by decide)) (failsOnly_readAvail.bind fun avail => ?_)
  exact .ite (.throw (by decide)) (failsOnly_dataPosition.bind fun pos => failsOnly_rewind _)

theorem failsOnly_readFields (s : BinderStatus) : FailsOnly (· ≠ .ok) (readFields s) := by
  refine failsOnly_readInt32.bind fun code => .ite (failsOnly_skipHeader.bind fun _ => .pure) (.ite .pure ?_)
  refine failsOnly_readMessage.bind fun message => failsOnly_skipStackTrace.bind fun _ => ?_
  exact .ite (failsOnly_readInt32.bind fun _ => .pure) (.ite (failsOnly_skipHeader.bind fun _ => .pure) .pure)

theorem returns_readFromParcel : Returns s.readFromParcel p (.ok, s') q ↔ Returns (readFields s) p s' q := by
  unfold readFromParcel
  rw [returns_tryCatch, returns_map]
  simp only [returns_pure]
  constructor
  · rintro (⟨t, ht, heq⟩ | ⟨e, t, hfail, heq, -⟩)
    · cases heq
      exact ht
    · have hfields : FailsOnly (· ≠ .ok) (do return (Status.ok, ← readFields s)) :=
        (failsOnly_readFields s).bind fun _ => .pure
      exact absurd (congrArg Prod.fst heq) (hfields p e t hfail)
  · intro h
    exact .inl ⟨s', h, rfl⟩

/-! ### The position -/

/-- Every header that the content has is as large as its size field. -/
def Sized (p : Parcel) : Prop := ∀ off v, SizeField p off → WordAt p off v → 4 ≤ v.toNat

/-- The reader ends behind everything that it has read, in the data. -/
def EndsBehind (s : BinderStatus) (p : Parcel) : Prop :=
  ∀ s' q, Returns s.readFromParcel p (.ok, s') q → Advanced p q ∧ q.mDataPos ≤ q.mDataSize

/-- Reading a status ends behind everything that was read where no header is smaller than its size field; and only
there, if the data is not too large for its end to be a position. -/
theorem readFromParcel_ends_behind (s : BinderStatus) (p : Parcel) (hg : Guarded p) :
    (Sized p → EndsBehind s p) ∧ (p.mDataSize ≤ int32Max → (EndsBehind s p ↔ Sized p)) := by
  have hforward (hsized : Sized p) : EndsBehind s p := by
    intro s' q h
    rcases header_of_readFields hg (returns_readFromParcel.mp h) with hdone | ⟨off, r, hfield, hp, hadv, ⟨mem, hmem⟩, hskip⟩
    · exact hdone
    · obtain ⟨v, hword, hpos, hsize, hin, hevents⟩ := header_of_returns hp.guarded hmem hskip
      have hfour := hsized off v hfield ((WordAt.moved hp).mp hword)
      refine ⟨hadv.trans ⟨by omega, [.load r.mDataPos 4], hevents, fun a len hload => ?_⟩, by omega⟩
      cases mem_singleton.mp hload
      omega
  refine ⟨hforward, fun hmax => ⟨fun hends off v hfield hword => ?_, hforward⟩⟩
  have hr : Readable p := ⟨hg, hmax⟩
  by_contra hsmall
  obtain ⟨r, hp, hadv, hreach⟩ := hfield.reached hr s
  have hword' := (WordAt.moved hp).mpr hword
  obtain ⟨q, hskip, hpos⟩ := returns_header (hr.after hp) hword' (not_le.mp hsmall)
  obtain ⟨s', hread⟩ := hreach q hskip
  obtain ⟨mem, hmem⟩ := hword'.data
  obtain ⟨-, -, -, -, -, hevents⟩ := header_of_returns hp.guarded hmem hskip
  -- the read of the size is behind the position
  obtain ⟨hall, -⟩ := hends s' q (returns_readFromParcel.mpr hread)
  obtain ⟨es, hes, hload⟩ := hall.loads
  obtain ⟨es', hes', -⟩ := hadv.loads
  have hsize : Event.load r.mDataPos 4 ∈ es := by
    have heq : es ++ p.events = (.load r.mDataPos 4 :: es') ++ p.events := by
      rw [← hes, hevents, hes', cons_append]
    rw [append_cancel_right heq]
    exact mem_cons_self
  have hle := hload _ _ hsize
  omega

def ofWords (ws : List (BitVec 32)) : Parcel where
  mData := some (.ofBytes (ws.flatMap wordBytes))
  mDataSize := ws.length * 4
  mDataCapacity := ws.length * 4

/-- A reply header of two words in front of a value. -/
theorem readFromParcel_ends_behind_reply : ∃ s' q,
    Returns ({} : BinderStatus).readFromParcel (ofWords [exHasReplyHeader, 8, 0, 7]) (.ok, s') q ∧
      Advanced (ofWords [exHasReplyHeader, 8, 0, 7]) q ∧ q.mDataPos = 12 := by
  have hsized : Sized (ofWords [exHasReplyHeader, 8, 0, 7]) := by
    intro off v hfield hword
    cases hfield with
    | reply =>
      have hbytes : BitVec.ofNat 32 (leNat (wordBytes 8)) = v :=
        (ofNat_leNat_eq_iff (by decide) v).mpr hword.bytes
      rw [← hbytes]
      decide
    | blob hcode => exact absurd hcode.bytes (by decide)
  have hends := (readFromParcel_ends_behind {} (ofWords [exHasReplyHeader, 8, 0, 7]) ⟨by simp [ofWords], nofun⟩).1 hsized
  obtain ⟨s', q, hread, hpos⟩ : ∃ s' q, Returns ({} : BinderStatus).readFromParcel
      (ofWords [exHasReplyHeader, 8, 0, 7]) (.ok, s') q ∧ q.mDataPos = 12 := ⟨_, _, rfl, rfl⟩
  exact ⟨s', q, hread, (hends s' q hread).1, hpos⟩

/-- A header of size 0 puts the position in front of the size that was read. -/
theorem readFromParcel_small_header : let reply := ofWords [exHasReplyHeader, 0]
    let blob := ofWords [exParcelable, -1, 0, 0]
    Guarded reply ∧ (∃ s' q, Returns ({} : BinderStatus).readFromParcel reply (.ok, s') q ∧ q.mDataPos = 4 ∧
        Event.load 4 4 ∈ q.events) ∧
      Guarded blob ∧ ∃ s' q, Returns ({} : BinderStatus).readFromParcel blob (.ok, s') q ∧ q.mDataPos = 12 ∧
        Event.load 12 4 ∈ q.events := by
  intro reply blob
  have hends (p : Parcel) (pos : ℕ) (h : ∃ a q, Returns ({} : BinderStatus).readFromParcel p a q ∧
      a.1 = .ok ∧ q.mDataPos = pos ∧ Event.load pos 4 ∈ q.events) :
      ∃ s' q, Returns ({} : BinderStatus).readFromParcel p (.ok, s') q ∧ q.mDataPos = pos ∧
        Event.load pos 4 ∈ q.events := by
    obtain ⟨⟨_, s'⟩, q, hread, rfl, hends⟩ := h
    exact ⟨s', q, hread, hends⟩
  refine ⟨⟨by simp [reply, ofWords], nofun⟩, hends reply 4 (exists_returns _ (by decide +kernel)),
    ⟨by simp [blob, ofWords], nofun⟩, hends blob 12 (exists_returns _ (by decide +kernel))⟩

end BinderStatus

end Binder.Parcel
