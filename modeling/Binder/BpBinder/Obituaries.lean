import Binder.Lib.Ledger
import Binder.Lib.Transition
import Binder.Status

/-! Death notifications of a proxy: links to recipients, and the obituary that reports to them. -/
namespace Binder.BpBinder
open Binder.Lib List

/-- The commands that the proxy sends to the driver. -/
inductive Command
  | requestDeathNotification
  | clearDeathNotification
  deriving DecidableEq, Repr

/-- No call reads `link`, the number of the link that made the entry. -/
structure Obituary where
  recipient : ℕ
  cookie : ℕ
  flags : ℕ
  link : ℕ
  deriving DecidableEq, Repr

/-- A null recipient stands for any with the cookie. -/
def Obituary.isFor (recipient : Option ℕ) (cookie flags : ℕ) (ob : Obituary) : Bool :=
  (decide (recipient = some ob.recipient) || recipient.isNone && decide (ob.cookie = cookie)) && decide (ob.flags = flags)

/-- `commands` lists what was sent to the driver, the oldest first. -/
structure Obituaries where
  mObituaries : Option (List Obituary) := none
  mObitsSent : Bool := false
  commands : List Command := []
  deriving DecidableEq, Repr

def NAME_NOT_FOUND : Status := .other (-2)

namespace Obituaries

variable {p p' : Obituaries} {ob : Obituary}

def send (c : Command) (p : Obituaries) : Obituaries := { p with commands := p.commands ++ [c] }

/-- `mObituaries->add(ob)`, which fails if the vector cannot grow. -/
def add (ob : Obituary) (obits : List Obituary) (grows : Bool) (p : Obituaries) : Status × Obituaries :=
  if grows then (.ok, { p with mObituaries := some (obits ++ [ob]) })
  else (.noMemory, { p with mObituaries := some obits })

/-- `created` and `grows` tell whether there is memory for the vector and for its next entry. -/
def linkToDeath (ob : Obituary) (created grows : Bool) (p : Obituaries) : Status × Obituaries :=
  if p.mObitsSent then (.deadObject, p)
  else match p.mObituaries with
    | some obits => p.add ob obits grows
    | none => if created then (p.send .requestDeathNotification).add ob [] grows else (.noMemory, p)

/-- With the entry that was removed. -/
def unlinkToDeath (recipient : Option ℕ) (cookie flags : ℕ) (p : Obituaries) :
    Status × Option Obituary × Obituaries :=
  if p.mObitsSent then (.deadObject, none, p)
  else
    let obits := p.mObituaries.getD []
    match obits.find? (Obituary.isFor recipient cookie flags) with
    | none => (NAME_NOT_FOUND, none, p)
    | some ob =>
      let rest := obits.eraseP (Obituary.isFor recipient cookie flags)
      (.ok, some ob, if rest.isEmpty then { p.send .clearDeathNotification with mObituaries := none }
        else { p with mObituaries := some rest })

/-- The obituaries are taken away, and the driver told. -/
def detach (p : Obituaries) : List Obituary × Obituaries :=
  match p.mObituaries with
  | some obits => (obits, { p.send .clearDeathNotification with mObituaries := none })
  | none => ([], p)

/-- The section of `sendObituary` under the lock. -/
def sendObituary (p : Obituaries) : List Obituary × Obituaries :=
  let (obits, p) := p.detach
  (obits, { p with mObitsSent := true })

/-- The obituaries are deleted without a report. -/
def onLastStrongRef (p : Obituaries) : List Obituary × Obituaries := p.detach

def held (p : Obituaries) : List Obituary := p.mObituaries.getD []

theorem linkToDeath_sent (hsent : p.mObitsSent = true) (created grows : Bool) :
    p.linkToDeath ob created grows = (.deadObject, p) := by
  simp [linkToDeath, hsent]

theorem unlinkToDeath_sent (hsent : p.mObitsSent = true) (recipient : Option ℕ) (cookie flags : ℕ) :
    p.unlinkToDeath recipient cookie flags = (.deadObject, none, p) := by
  simp [unlinkToDeath, hsent]

section

variable (p : Obituaries)

theorem held_linkToDeath (ob : Obituary) (created grows : Bool) :
    (p.linkToDeath ob created grows).2.held =
      p.held ++ (if (p.linkToDeath ob created grows).1 = .ok then [ob] else []) := by
  obtain ⟨obits, sent, commands⟩ := p
  cases sent <;> cases obits <;> cases created <;> cases grows <;> simp [linkToDeath, add, send, held]

theorem mObitsSent_linkToDeath (ob : Obituary) (created grows : Bool) :
    (p.linkToDeath ob created grows).2.mObitsSent = p.mObitsSent := by
  obtain ⟨obits, sent, commands⟩ := p
  cases sent <;> cases obits <;> cases created <;> cases grows <;> rfl

/-- An entry is taken out, or nothing changes. -/
theorem unlinkToDeath_cases (recipient : Option ℕ) (cookie flags : ℕ) :
    ((p.unlinkToDeath recipient cookie flags).2.1 = none ∧ (p.unlinkToDeath recipient cookie flags).2.2 = p) ∨
      p.mObitsSent = false ∧ ∃ ob before behind, (p.unlinkToDeath recipient cookie flags).2.1 = some ob ∧
        p.held = before ++ ob :: behind ∧ (p.unlinkToDeath recipient cookie flags).2.2.held = before ++ behind := by
  unfold unlinkToDeath
  cases hsent : p.mObitsSent
  · simp only [Bool.false_eq_true, if_false]
    cases hfind : (p.mObituaries.getD []).find? (Obituary.isFor recipient cookie flags) with
    | none => exact .inl ⟨rfl, rfl⟩
    | some ob =>
      right
      obtain ⟨hmatch, before, behind, hsplit, hbefore⟩ := List.find?_eq_some_iff_append.mp hfind
      have hrest : (p.mObituaries.getD []).eraseP (Obituary.isFor recipient cookie flags) = before ++ behind := by
        rw [hsplit, eraseP_append_right _ (by simpa using hbefore), eraseP_cons_of_pos hmatch]
      refine ⟨trivial, ob, before, behind, rfl, hsplit, ?_⟩
      simp only [hrest]
      split_ifs with hempty
      · exact (isEmpty_iff.mp hempty).symm
      · rfl
  · exact .inl ⟨rfl, rfl⟩

theorem mObitsSent_unlinkToDeath (recipient : Option ℕ) (cookie flags : ℕ) :
    (p.unlinkToDeath recipient cookie flags).2.2.mObitsSent = p.mObitsSent := by
  unfold unlinkToDeath
  by_cases hsent : p.mObitsSent = true
  · rw [if_pos hsent]
  · rw [if_neg hsent]
    dsimp only
    split
    · rfl
    · dsimp only
      split <;> rfl

theorem detach_fst : p.detach.1 = p.held := by
  unfold detach held
  cases p.mObituaries <;> rfl

theorem detach_mObituaries : p.detach.2.mObituaries = none := by
  unfold detach
  cases h : p.mObituaries <;> simp [h]

end

section Commands

/-- Requests and clears in turn, a request first. -/
def Alternates (commands : List Command) : Prop :=
  ∀ i c, commands[i]? = some c → c = if i % 2 = 0 then .requestDeathNotification else .clearDeathNotification

theorem Alternates.append {commands : List Command} (h : Alternates commands) {c : Command}
    (hc : c = if commands.length % 2 = 0 then .requestDeathNotification else .clearDeathNotification) :
    Alternates (commands ++ [c]) := by
  intro i d hd
  by_cases hi : i < commands.length
  · rw [List.getElem?_append_left hi] at hd
    exact h i d hd
  · rw [List.getElem?_append_right (by omega), List.getElem?_singleton] at hd
    split_ifs at hd
    have hlen : i = commands.length := by omega
    cases hd
    rw [hlen]
    exact hc

/-- The driver knows of a request just as long as there is a vector. -/
structure InTurn (p : Obituaries) : Prop where
  alternates : Alternates p.commands
  requested : p.commands.length % 2 = if p.mObituaries.isSome then 1 else 0

section

variable (h : InTurn p)
include h

theorem InTurn.request (hnone : p.mObituaries = none) (obits : List Obituary) :
    InTurn { p.send .requestDeathNotification with mObituaries := some obits } := by
  have hlen := h.requested
  simp only [hnone, Option.isSome_none, Bool.false_eq_true, if_false] at hlen
  constructor
  · exact h.alternates.append (by rw [if_pos hlen])
  · simp only [send, length_append, length_singleton, Option.isSome_some, if_true]
    omega

theorem InTurn.clear (hsome : p.mObituaries.isSome = true) :
    InTurn { p.send .clearDeathNotification with mObituaries := none } := by
  have hlen := h.requested
  simp only [hsome, if_true] at hlen
  constructor
  · exact h.alternates.append (by rw [if_neg (by omega)])
  · simp only [send, length_append, length_singleton, Option.isSome_none, Bool.false_eq_true, if_false]
    omega

theorem InTurn.change (hsome : p.mObituaries.isSome = true) (obits : List Obituary) :
    InTurn { p with mObituaries := some obits } := by
  refine ⟨h.alternates, ?_⟩
  have hlen := h.requested
  simpa [hsome] using hlen

theorem InTurn.linkToDeath (ob : Obituary) (created grows : Bool) : InTurn (p.linkToDeath ob created grows).2 := by
  unfold Obituaries.linkToDeath
  cases p.mObitsSent with
  | true => exact h
  | false =>
    cases hobits : p.mObituaries with
    | some => cases grows <;> exact h.change (by simp [hobits]) _
    | none =>
      cases created with
      | true => cases grows <;> exact h.request hobits _
      | false => exact h

theorem InTurn.unlinkToDeath (recipient : Option ℕ) (cookie flags : ℕ) :
    InTurn (p.unlinkToDeath recipient cookie flags).2.2 := by
  unfold Obituaries.unlinkToDeath
  split_ifs
  · exact h
  · dsimp only
    split
    · exact h
    case h_2 ob hfind =>
      have hsome : p.mObituaries.isSome = true := by
        cases hobits : p.mObituaries with
        | none => simp [hobits] at hfind
        | some => rfl
      split_ifs
      · exact h.clear hsome
      · exact h.change hsome _

theorem InTurn.detach : InTurn p.detach.2 := by
  unfold Obituaries.detach
  cases hobits : p.mObituaries with
  | none => exact h
  | some => exact h.clear (by simp [hobits])

theorem InTurn.sendObituary : InTurn p.sendObituary.2 := ⟨h.detach.alternates, h.detach.requested⟩

end

end Commands

end Obituaries

/-- Where a call of `sendObituary` stands: behind the test without the lock, or in the reports. -/
inductive Sender
  | tested
  | reporting (obits : List Obituary)
  deriving DecidableEq, Repr

def Sender.obits : Sender → List Obituary
  | .tested => []
  | .reporting obits => obits

/-- A proxy with the recipients that are alive. `links` lists the successful links, `removed` the numbers of those
that were unlinked or dropped, `died` and `missed` the reports that reached a recipient and that did not. -/
structure Deaths where
  proxy : Obituaries := {}
  alive : ℕ → Bool := fun _ => true
  senders : List Sender := []
  links : List Obituary := []
  removed : List ℕ := []
  died : List ℕ := []
  missed : List ℕ := []

namespace Deaths

variable {s s' : Deaths}

inductive Op
  | linkToDeath (recipient cookie flags : ℕ) (created grows : Bool)
  | unlinkToDeath (recipient : Option ℕ) (cookie flags : ℕ)
  | sendObituary
  | lock (sender : ℕ)
  | reportOneDeath (sender : ℕ)
  | onLastStrongRef
  | lose (recipient : ℕ)
  deriving DecidableEq, Repr

def linkToDeath (recipient cookie flags : ℕ) (created grows : Bool) (s : Deaths) : Status × Deaths :=
  let ob : Obituary := ⟨recipient, cookie, flags, s.links.length⟩
  let (status, proxy) := s.proxy.linkToDeath ob created grows
  (status, { s with proxy := proxy, links := if status = .ok then s.links ++ [ob] else s.links })

def unlinkToDeath (recipient : Option ℕ) (cookie flags : ℕ) (s : Deaths) : Status × Deaths :=
  let (status, ob, proxy) := s.proxy.unlinkToDeath recipient cookie flags
  (status, { s with proxy := proxy, removed := (ob.map Obituary.link).toList ++ s.removed })

/-- The weak pointer to the recipient is promoted. -/
def reportOneDeath (ob : Obituary) (s : Deaths) : Deaths :=
  if s.alive ob.recipient then { s with died := ob.link :: s.died } else { s with missed := ob.link :: s.missed }

/-- What one thread does between two points where another one can come in. -/
def step (s : Deaths) : Op → Option Deaths
  | .linkToDeath recipient cookie flags created grows =>
    if s.alive recipient then some (s.linkToDeath recipient cookie flags created grows).2 else none
  | .unlinkToDeath recipient cookie flags => some (s.unlinkToDeath recipient cookie flags).2
  | .sendObituary => some (if s.proxy.mObitsSent then s else { s with senders := s.senders ++ [.tested] })
  | .lock i => (s.senders[i]?).bind fun sender => match sender with
    | .tested =>
      let (obits, proxy) := s.proxy.sendObituary
      some { s with proxy := proxy, senders := s.senders.set i (.reporting obits) }
    | .reporting _ => none
  | .reportOneDeath i => (s.senders[i]?).bind fun sender => match sender with
    | .reporting (ob :: obits) => some (({ s with senders := s.senders.set i (.reporting obits) }).reportOneDeath ob)
    | _ => none
  | .onLastStrongRef =>
    let (obits, proxy) := s.proxy.onLastStrongRef
    some { s with proxy := proxy, removed := obits.map Obituary.link ++ s.removed }
  | .lose recipient => some { s with alive := Function.update s.alive recipient false }

/-- The reports that are still to be made. -/
def pending (s : Deaths) : List Obituary := s.senders.flatMap Sender.obits

/-- How often a link is held, is to be reported, or is over. -/
def places (i : ℕ) (s : Deaths) : ℕ :=
  s.proxy.held.countP (fun ob => ob.link = i) + s.pending.countP (fun ob => ob.link = i) + s.removed.count i +
    s.died.count i + s.missed.count i

structure Accounted (s : Deaths) : Prop where
  once : ∀ i, s.places i = if i < s.links.length then 1 else 0
  known : ∀ ob, ob ∈ s.proxy.held ∨ ob ∈ s.pending → s.links[ob.link]? = some ob
  sent : s.proxy.mObitsSent = true → s.proxy.held = []
  missed : ∀ i ∈ s.missed, ∃ ob, s.links[i]? = some ob ∧ s.alive ob.recipient = false
  inTurn : s.proxy.InTurn

theorem accounted_init : Accounted {} := by
  constructor
  case once => simp [places, Obituaries.held, pending]
  case known => simp [Obituaries.held, pending]
  case sent => simp
  case missed => simp
  case inTurn =>
    constructor
    · simp [Obituaries.Alternates]
    · rfl

section

variable (h : Accounted s)
include h

theorem Accounted.linked {ob : Obituary} {proxy : Obituaries} (hlink : ob.link = s.links.length)
    (hheld : proxy.held = s.proxy.held ++ [ob]) (hsent : proxy.mObitsSent = false) (hturn : proxy.InTurn) :
    Accounted { s with proxy := proxy, links := s.links ++ [ob] } := by
  have hgrown {i : ℕ} {ob' : Obituary} (hi : s.links[i]? = some ob') : (s.links ++ [ob])[i]? = some ob' := by
    rw [List.getElem?_append_left (List.getElem?_eq_some_iff.mp hi).1, hi]
  constructor
  case once =>
    intro i
    have honce := h.once i
    unfold places pending at honce ⊢
    simp only [hheld, hlink, countP_append, countP_singleton, length_append, length_singleton,
      decide_eq_true_eq] at honce ⊢
    split_ifs at honce ⊢ <;> omega
  case known =>
    intro ob' hob
    simp only [hheld, mem_append, mem_singleton] at hob
    rcases hob with (hob | hob) | hob
    · exact hgrown (h.known ob' (.inl hob))
    · simp [hob, hlink]
    · exact hgrown (h.known ob' (.inr hob))
  case sent => simp [hsent]
  case missed =>
    intro i hi
    obtain ⟨ob', hob, hlost⟩ := h.missed i hi
    exact ⟨ob', hgrown hob, hlost⟩
  case inTurn => exact hturn

/-- Entries of the proxy go to the links that are over, or to a sender. -/
theorem Accounted.moved {proxy : Obituaries} {senders : List Sender} {removed : List ℕ}
    (honce : ∀ i, ({ s with proxy := proxy, senders := senders, removed := removed } : Deaths).places i = s.places i)
    (hmem : ∀ ob, ob ∈ proxy.held ∨ ob ∈ senders.flatMap Sender.obits → ob ∈ s.proxy.held ∨ ob ∈ s.pending)
    (hsent : proxy.mObitsSent = true → proxy.held = []) (hturn : proxy.InTurn) :
    Accounted { s with proxy := proxy, senders := senders, removed := removed } where
  once i := (honce i).trans (h.once i)
  known ob hob := h.known ob (hmem ob hob)
  sent := hsent
  missed := h.missed
  inTurn := hturn

theorem Accounted.linkToDeath (recipient cookie flags : ℕ) (created grows : Bool) :
    Accounted (s.linkToDeath recipient cookie flags created grows).2 := by
  have hheld := s.proxy.held_linkToDeath ⟨recipient, cookie, flags, s.links.length⟩ created grows
  have hsent := s.proxy.mObitsSent_linkToDeath ⟨recipient, cookie, flags, s.links.length⟩ created grows
  have hturn := h.inTurn.linkToDeath ⟨recipient, cookie, flags, s.links.length⟩ created grows
  by_cases hok : (s.proxy.linkToDeath ⟨recipient, cookie, flags, s.links.length⟩ created grows).1 = .ok
  · rw [if_pos hok] at hheld
    have hlive : s.proxy.mObitsSent = false := by
      cases hs : s.proxy.mObitsSent with
      | false => rfl
      | true =>
        rw [Obituaries.linkToDeath_sent hs] at hok
        cases hok
    simp only [Deaths.linkToDeath, if_pos hok]
    exact h.linked rfl hheld (hsent.trans hlive) hturn
  · rw [if_neg hok, append_nil] at hheld
    simp only [Deaths.linkToDeath, if_neg hok]
    apply h.moved
    · intro i
      unfold places pending
      rw [hheld]
    · rw [hheld]
      exact fun ob hob => hob
    · rw [hheld, hsent]
      exact h.sent
    · exact hturn

theorem Accounted.unlinkToDeath (recipient : Option ℕ) (cookie flags : ℕ) :
    Accounted (s.unlinkToDeath recipient cookie flags).2 := by
  have hturn := h.inTurn.unlinkToDeath recipient cookie flags
  unfold Deaths.unlinkToDeath
  dsimp only
  rcases s.proxy.unlinkToDeath_cases recipient cookie flags with
    ⟨hnone, hsame⟩ | ⟨hsent, ob, before, behind, hob, hsplit, hrest⟩
  · rw [hnone, hsame]
    exact h
  · rw [hob]
    apply h.moved
    · intro i
      unfold places pending
      rw [hrest, hsplit]
      simp only [countP_append, countP_cons, Option.map_some, Option.toList_some, singleton_append,
        count_cons, decide_eq_true_eq, beq_iff_eq]
      omega
    · intro ob' hob'
      rw [hrest] at hob'
      rw [hsplit]
      rcases hob' with hob' | hob'
      · exact .inl (by simp only [mem_append, mem_cons] at hob' ⊢; tauto)
      · exact .inr hob'
    · intro hsent'
      exact absurd hsent' (by rw [s.proxy.mObitsSent_unlinkToDeath, hsent]; decide)
    · exact hturn

theorem Accounted.lock {i : ℕ} (hi : s.senders[i]? = some .tested) : Accounted { s with
      proxy := s.proxy.sendObituary.2, senders := s.senders.set i (.reporting s.proxy.sendObituary.1) } := by
  have hdetached : s.proxy.sendObituary.1 = s.proxy.held := s.proxy.detach_fst
  have hempty : s.proxy.sendObituary.2.held = [] := by
    change (s.proxy.detach.2.mObituaries).getD [] = []
    rw [s.proxy.detach_mObituaries, Option.getD_none]
  apply h.moved
  · intro j
    have hcount := countP_flatMap_set_add hi Sender.obits (fun ob => ob.link = j) (.reporting s.proxy.held)
    simp only [Sender.obits, countP_nil] at hcount
    unfold places pending
    rw [hempty, hdetached]
    simp only [countP_nil]
    omega
  · intro ob hob
    rw [hempty, hdetached] at hob
    rcases hob with hob | hob
    · cases hob
    · obtain ⟨sender, hsender, hob⟩ := mem_flatMap.mp hob
      rcases mem_or_eq_of_mem_set hsender with hold | rfl
      · exact .inr (mem_flatMap.mpr ⟨sender, hold, hob⟩)
      · exact .inl hob
  · exact fun _ => hempty
  · exact h.inTurn.sendObituary

theorem Accounted.reportOneDeath {i : ℕ} {ob : Obituary} {obits : List Obituary}
    (hi : s.senders[i]? = some (.reporting (ob :: obits))) :
    Accounted (({ s with senders := s.senders.set i (.reporting obits) }).reportOneDeath ob) := by
  have honce (j : ℕ) : ({ s with senders := s.senders.set i (.reporting obits) } : Deaths).places j +
      (if ob.link = j then 1 else 0) = if j < s.links.length then 1 else 0 := by
    have hcount := countP_flatMap_set_add hi Sender.obits (fun ob => ob.link = j) (.reporting obits)
    have hplaces := h.once j
    unfold places pending at hplaces ⊢
    simp only [Sender.obits, countP_cons, decide_eq_true_eq] at hcount
    dsimp only
    omega
  have hpending {ob' : Obituary} (hob : ob' ∈ (s.senders.set i (.reporting obits)).flatMap Sender.obits) :
      ob' ∈ s.pending := by
    obtain ⟨sender, hsender, hob⟩ := mem_flatMap.mp hob
    rcases mem_or_eq_of_mem_set hsender with hold | rfl
    · exact mem_flatMap.mpr ⟨sender, hold, hob⟩
    · exact mem_flatMap.mpr ⟨_, mem_of_getElem? hi, mem_cons_of_mem _ hob⟩
  have hknown : s.links[ob.link]? = some ob :=
    h.known ob (.inr (mem_flatMap.mpr ⟨_, mem_of_getElem? hi, mem_cons_self⟩))
  unfold Deaths.reportOneDeath
  split_ifs with halive
  · constructor
    case once =>
      intro j
      rw [← honce j]
      simp only [places, pending, count_cons, beq_iff_eq]
      omega
    case known => exact fun ob' hob => h.known ob' (hob.imp_right hpending)
    case sent => exact h.sent
    case missed => exact h.missed
    case inTurn => exact h.inTurn
  · constructor
    case once =>
      intro j
      rw [← honce j]
      simp only [places, pending, count_cons, beq_iff_eq]
      omega
    case known => exact fun ob' hob => h.known ob' (hob.imp_right hpending)
    case sent => exact h.sent
    case missed =>
      intro j hj
      rcases mem_cons.mp hj with rfl | hj
      · exact ⟨ob, hknown, by simpa using halive⟩
      · exact h.missed j hj
    case inTurn => exact h.inTurn

theorem Accounted.onLastStrongRef : Accounted { s with
      proxy := s.proxy.onLastStrongRef.2
      removed := s.proxy.onLastStrongRef.1.map Obituary.link ++ s.removed } := by
  have hdropped : s.proxy.onLastStrongRef.1 = s.proxy.held := s.proxy.detach_fst
  have hempty : s.proxy.onLastStrongRef.2.held = [] := by
    change (s.proxy.detach.2.mObituaries).getD [] = []
    rw [s.proxy.detach_mObituaries, Option.getD_none]
  apply h.moved
  · intro i
    have hcount : (s.proxy.held.map Obituary.link).count i = s.proxy.held.countP fun ob => ob.link = i := by
      rw [count_eq_countP, countP_map]
      rfl
    unfold places pending
    rw [hempty, hdropped, count_append, hcount, countP_nil]
    dsimp only
    omega
  · intro ob hob
    rw [hempty] at hob
    exact hob.elim (fun hob => nomatch hob) .inr
  · exact fun _ => hempty
  · exact h.inTurn.detach

theorem Accounted.lose (recipient : ℕ) : Accounted { s with alive := Function.update s.alive recipient false } where
  once := h.once
  known := h.known
  sent := h.sent
  missed i hi := by
    obtain ⟨ob, hob, hlost⟩ := h.missed i hi
    refine ⟨ob, hob, ?_⟩
    by_cases hr : ob.recipient = recipient
    · simp [hr]
    · simpa [hr] using hlost
  inTurn := h.inTurn

theorem Accounted.step {op : Op} (hs : step s op = some s') : Accounted s' := by
  cases op with
  | linkToDeath recipient cookie flags created grows =>
    simp only [Deaths.step] at hs
    split_ifs at hs
    cases hs
    exact h.linkToDeath recipient cookie flags created grows
  | unlinkToDeath recipient cookie flags =>
    cases hs
    exact h.unlinkToDeath recipient cookie flags
  | sendObituary =>
    cases hs
    split_ifs
    · exact h
    · apply h.moved
      · intro i
        simp [places, pending, Sender.obits]
      · simp only [flatMap_append, flatMap_singleton, Sender.obits, append_nil]
        exact fun ob hob => hob
      · exact h.sent
      · exact h.inTurn
  | lock =>
    obtain ⟨sender, hi, hs⟩ := Option.bind_eq_some_iff.mp hs
    cases sender with
    | tested =>
      cases hs
      exact h.lock hi
    | reporting => cases hs
  | reportOneDeath =>
    obtain ⟨sender, hi, hs⟩ := Option.bind_eq_some_iff.mp hs
    split at hs
    case h_1 ob obits =>
      cases hs
      exact h.reportOneDeath hi
    case h_2 => cases hs
  | onLastStrongRef =>
    cases hs
    exact h.onLastStrongRef
  | lose recipient =>
    cases hs
    exact h.lose recipient

end

theorem accounted_of_reachable (h : Reachable step Free {} s) : Accounted s :=
  h.invariant Accounted accounted_init fun _ _ _ ha _ hs => ha.step hs

/-- The link is reported once or is still to be reported, as long as its recipient lives. -/
theorem Accounted.reported (h : Accounted s) {i : ℕ} {ob : Obituary} (hi : s.links[i]? = some ob)
    (hkept : i ∉ s.removed) (hsent : s.proxy.mObitsSent = true) (halive : s.alive ob.recipient = true) :
    s.died.count i + s.pending.countP (fun ob => ob.link = i) = 1 := by
  have honce := h.once i
  rw [if_pos (List.getElem?_eq_some_iff.mp hi).1] at honce
  have hremoved : s.removed.count i = 0 := count_eq_zero.mpr hkept
  have hmissed : s.missed.count i = 0 := by
    apply count_eq_zero.mpr
    intro hmem
    obtain ⟨ob', hob, hlost⟩ := h.missed i hmem
    cases Option.some.inj (hi.symm.trans hob)
    rw [halive] at hlost
    cases hlost
  unfold places at honce
  rw [h.sent hsent, countP_nil] at honce
  omega

/-- At no point of a run is a link reported twice, or once it was removed; behind the obituary every other link is
reported or about to be, nothing can be linked or unlinked, and the driver is told in turn. -/
theorem links_fire_once (h : Reachable step Free {} s) : (∀ i ob, s.links[i]? = some ob → s.died.count i ≤ 1 ∧
      (i ∈ s.removed → s.died.count i = 0 ∧ s.pending.countP (fun ob => ob.link = i) = 0) ∧
      (i ∉ s.removed → s.proxy.mObitsSent = true → s.alive ob.recipient = true →
        s.died.count i + s.pending.countP (fun ob => ob.link = i) = 1)) ∧
      (s.proxy.mObitsSent = true → (∀ recipient cookie flags created grows,
          (s.linkToDeath recipient cookie flags created grows).1 = .deadObject) ∧
        ∀ recipient cookie flags, (s.unlinkToDeath recipient cookie flags).1 = .deadObject) ∧
      Obituaries.Alternates s.proxy.commands := by
  have ha := accounted_of_reachable h
  refine ⟨?_, ?_, ha.inTurn.alternates⟩
  · intro i ob hi
    have honce := ha.once i
    rw [if_pos (List.getElem?_eq_some_iff.mp hi).1] at honce
    unfold places at honce
    refine ⟨by omega, ?_, ha.reported hi⟩
    intro hremoved
    have hpos : 0 < s.removed.count i := count_pos_iff.mpr hremoved
    constructor <;> omega
  · intro hsent
    constructor
    · intro recipient cookie flags created grows
      simp [Deaths.linkToDeath, Obituaries.linkToDeath_sent hsent]
    · intro recipient cookie flags
      simp [Deaths.unlinkToDeath, Obituaries.unlinkToDeath_sent hsent]

/-- A link is dropped with the last strong reference; of the next three one is unlinked; two threads send the obituary,
and one of the recipients is told while the other is gone. -/
theorem links_fire_once_told : ∃ s, Reachable step Free {} s ∧ s.links.length = 4 ∧ s.removed = [2, 0] ∧ s.died = [1] ∧
    s.missed = [3] ∧ s.proxy.mObitsSent = true ∧ s.died.count 1 + s.pending.countP (fun ob => ob.link = 1) = 1 := by
  obtain ⟨s, hs, hlink, hlength, hremoved, hdied, hmissed, hsent, halive⟩ := exists_reachable step Free {}
    [.linkToDeath 5 0 0 true true, .onLastStrongRef, .linkToDeath 6 0 0 true true, .linkToDeath 7 3 1 true true,
      .linkToDeath 8 0 0 true true, .unlinkToDeath none 3 1, .sendObituary, .sendObituary, .lock 1, .lose 8, .lock 0,
      .reportOneDeath 1, .reportOneDeath 1]
    (fun s => s.links[1]? = some ⟨6, 0, 0, 1⟩ ∧ s.links.length = 4 ∧ s.removed = [2, 0] ∧ s.died = [1] ∧ s.missed = [3] ∧
      s.proxy.mObitsSent = true ∧ s.alive 6 = true) (by decide +kernel)
  have hfired := ((links_fire_once hs).1 1 _ hlink).2.2 (by simp [hremoved]) hsent halive
  exact ⟨s, hs, hlength, hremoved, hdied, hmissed, hsent, hfired⟩

end Deaths

end Binder.BpBinder
