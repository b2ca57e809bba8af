import Mathlib.Data.List.Nodup
import Binder.Lib.Transition

/-! An `AIBinder_DeathRecipient`: one object for each link, owned by the recipient and known to the proxy by a weak
pointer, that calls the user back when the binder dies and when it is destroyed. -/
namespace Binder.Ndk
open Binder.Lib List

/-- The obituary of a link: not there, held by the proxy, or on its way to be reported. -/
inductive Obituary
  | absent
  | held
  | sent
  deriving DecidableEq, Repr

/-- Where `binderDied` of a link is: the object was promoted, the user told, the link removed. -/
inductive Stage
  | away
  | promoted
  | told
  | unlinked
  deriving DecidableEq, Repr

inductive Event
  | onBinderDied
  | onUnlinked
  deriving DecidableEq, Repr

/-- A `TransferDeathRecipient` that was made for a binder, with its obituary in the proxy. `linked` records that the
link was successful, `excused` that the user gave it up before the death, and `events` what the user was told. -/
structure Link where
  binder : ℕ
  mCookie : ℕ
  mWho : Bool := true
  linked : Bool := true
  obituary : Obituary := .held
  stage : Stage := .away
  excused : Bool := false
  events : List Event := []
  deriving DecidableEq, Repr

/-- `dead` says that the obituaries of a binder were sent. -/
structure DeathRecipient where
  links : List Link := []
  mDeathRecipients : List ℕ := []
  dead : ℕ → Bool := fun _ => false
  deleted : Bool := false
  aborted : Bool := false

namespace DeathRecipient

/-- The user's calls, the death of a binder, and the steps of `binderDied`, each for one link. -/
inductive Op
  | linkToDeath (binder cookie : ℕ) (ok : Bool)
  | unlinkToDeath (binder cookie : ℕ)
  | delete
  | sendObituary (binder : ℕ)
  | reportOneDeath (binder : ℕ)
  | onDied (t : ℕ)
  | unlink (t : ℕ) (strongWho : Bool)
  | finish (t : ℕ)
  deriving DecidableEq, Repr

def modify (t : ℕ) (f : Link → Link) (s : DeathRecipient) : DeathRecipient := { s with links := s.links.modify t f }

def referenced (s : DeathRecipient) (t : ℕ) (x : Link) : Bool := decide (t ∈ s.mDeathRecipients) || x.stage ≠ .away

/-- The objects that lost a strong reference are destroyed if it was the last one. -/
def release (ts : List ℕ) (s : DeathRecipient) : DeathRecipient :=
  { s with links := s.links.mapIdx fun t x =>
      if t ∈ ts ∧ s.referenced t x = false then { x with events := x.events ++ [.onUnlinked] } else x }

def isDead (s : DeathRecipient) (t : ℕ) : Bool := s.links[t]?.any fun x => !x.mWho

def pruneDeadTransferEntriesLocked (s : DeathRecipient) : DeathRecipient :=
  release (s.mDeathRecipients.filter s.isDead)
    { s with mDeathRecipients := s.mDeathRecipients.filter fun t => !s.isDead t }

/-- The proxy refuses the link if its obituaries were sent, and may fail otherwise. -/
def linkToDeath (binder cookie : ℕ) (ok : Bool) (s : DeathRecipient) : DeathRecipient :=
  if ok && !s.dead binder then
    pruneDeadTransferEntriesLocked { s with
      links := s.links ++ [{ binder := binder, mCookie := cookie }]
      mDeathRecipients := s.mDeathRecipients ++ [s.links.length] }
  else { s with links := s.links ++ [{
    binder := binder, mCookie := cookie, linked := false, obituary := .absent, events := [.onUnlinked] }] }

/-- `recipient->getCookie() == cookie && recipient->getWho() == binder` -/
def isFor (binder cookie : ℕ) (s : DeathRecipient) (t : ℕ) : Bool :=
  s.links[t]?.any fun x => x.mCookie = cookie && x.mWho && x.binder = binder

def lastFor (binder cookie : ℕ) (s : DeathRecipient) : Option ℕ :=
  s.mDeathRecipients.reverse.find? (s.isFor binder cookie)

/-- The proxy keeps an obituary that was sent. `excused` marks a call of the user. -/
def unlinkToDeath (binder cookie : ℕ) (excused : Bool) (s : DeathRecipient) : DeathRecipient :=
  match s.lastFor binder cookie with
  | none => s
  | some t => release [t] (modify t
      (fun x => { x with
        obituary := if s.dead binder then x.obituary else .absent
        excused := x.excused || excused })
      { s with mDeathRecipients := s.mDeathRecipients.erase t })

def sendObituary (binder : ℕ) (s : DeathRecipient) : DeathRecipient :=
  if s.dead binder then s
  else { s with
    dead := Function.update s.dead binder true
    links := s.links.map fun x =>
      if x.binder = binder ∧ x.obituary = .held then { x with obituary := .sent } else x }

def step (s : DeathRecipient) : Op → Option DeathRecipient
  | .linkToDeath b cookie ok => if s.deleted then none else some (s.linkToDeath b cookie ok)
  | .unlinkToDeath b cookie => if s.deleted then none else some (s.unlinkToDeath b cookie true)
  | .delete =>
    if s.deleted then none
    else some (release s.mDeathRecipients { s with
      mDeathRecipients := [], deleted := true
      links := s.links.map fun x => if s.dead x.binder then x else { x with excused := true } })
  | .sendObituary b => some (s.sendObituary b)
  | .reportOneDeath b =>
    -- the reports of one binder are made one behind the other, in the order of the links
    if s.links.any fun x => x.binder = b && x.stage ≠ .away then none
    else (s.links.findIdx? fun x => x.binder = b && x.obituary = .sent).map fun t => s.modify t fun x =>
      { x with obituary := .absent, stage := if s.referenced t x then .promoted else .away }
  | .onDied t => (s.links[t]?.filter (·.stage = .promoted)).map fun x =>
      if x.mWho then s.modify t fun x => { x with stage := .told, events := x.events ++ [.onBinderDied] }
      else { s with aborted := true }
  | .unlink t strongWho => (s.links[t]?.filter (·.stage = .told)).map fun x =>
      let s := s.modify t fun x => { x with stage := .unlinked }
      if !s.deleted && strongWho then s.unlinkToDeath x.binder x.mCookie false else s
  | .finish t => (s.links[t]?.filter (·.stage = .unlinked)).map fun _ =>
      release [t] (s.modify t fun x => { x with mWho := false, stage := .away })

/-- The object that a report removes from the recipient is being reported itself, and the recipient is deleted only
while none of its objects waits for a report. -/
def OpOk (s : DeathRecipient) : Op → Prop
  | .unlink t strongWho => s.deleted = false → strongWho = true → ∀ x ∈ s.links[t]?,
      ∀ t' ∈ s.lastFor x.binder x.mCookie, ∀ x' ∈ s.links[t']?, x'.stage ≠ .away
  | .delete => ∀ t ∈ s.mDeathRecipients, ∀ x ∈ s.links[t]?, x.obituary ≠ .sent
  | _ => True

instance (s : DeathRecipient) : (op : Op) → Decidable (OpOk s op)
  | .unlink .. => inferInstanceAs (Decidable (_ → _ → ∀ x ∈ _, ∀ t' ∈ _, ∀ x' ∈ _, _))
  | .delete => inferInstanceAs (Decidable (∀ t ∈ _, ∀ x ∈ _, _))
  | .linkToDeath .. | .unlinkToDeath .. | .sendObituary _ | .reportOneDeath _ | .onDied _ | .finish _ =>
    .isTrue trivial

end DeathRecipient

/-! ### One link -/

namespace Link

def reported (x : Link) : Bool := decide (.onBinderDied ∈ x.events)

/-- What a link keeps: `owned` says that the recipient holds its object, `sent` that the binder is dead, and `ended`
that the user was told of the end. -/
structure Good (x : Link) (owned sent ended : Bool) : Prop where
  events : x.events = (if x.reported then [.onBinderDied] else []) ++ if ended then [.onUnlinked] else []
  who : x.mWho = false ↔ x.reported = true ∧ x.stage = .away
  promoted : x.stage = .promoted → x.reported = false
  told : x.stage = .told ∨ x.stage = .unlinked → x.reported = true
  waiting : x.obituary ≠ .absent → x.reported = false ∧ x.stage = .away
  alive : x.obituary = .held → sent = false
  dead : x.obituary = .sent ∨ x.stage ≠ .away → sent = true
  holding : owned = true → x.linked = true ∧ x.excused = false
  kept : x.linked = true → x.excused = false → x.reported = true ∨ x.stage = .promoted ∨
    owned = true ∧ x.obituary ≠ .absent

section Good

variable {x : Link} {owned sent ended : Bool}

theorem Good.end (h : x.Good owned sent false) :
    Good { x with events := x.events ++ [.onUnlinked] } owned sent true := by
  have hreported : Link.reported { x with events := x.events ++ [.onUnlinked] } = x.reported := by simp [reported]
  have hevents := h.events
  exact ⟨by rw [hreported]; simpa using hevents, by rw [hreported]; exact h.who, by rw [hreported]; exact h.promoted,
    by rw [hreported]; exact h.told, by rw [hreported]; exact h.waiting, h.alive, h.dead, h.holding,
    by rw [hreported]; exact h.kept⟩

/-- The recipient may drop a link that is reported. -/
theorem Good.drop (h : x.Good owned sent ended) (hreported : x.reported = true ∨ x.stage = .promoted) :
    x.Good false sent ended :=
  { h with
    holding := by simp
    kept := fun _ _ => hreported.imp_right .inl }

/-- A link that is reported, or that the user gave up, may lose its obituary and its object. -/
theorem Good.unlink (h : x.Good owned sent ended) (obituary : Obituary)
    (hobituary : obituary = x.obituary ∨ obituary = .absent) (excused : Bool)
    (hgone : excused = true ∨ x.reported = true ∨ x.stage = .promoted) :
    Good { x with obituary := obituary, excused := x.excused || excused } false sent ended := by
  have hkept (hexcused : (x.excused || excused) = false) : x.reported = true ∨ x.stage = .promoted ∨
      false = true ∧ obituary ≠ .absent := by
    rcases hgone with rfl | hreported
    · simp at hexcused
    · exact hreported.imp_right .inl
  rcases hobituary with rfl | rfl
  · exact ⟨h.events, h.who, h.promoted, h.told, h.waiting, h.alive, h.dead, by simp, fun _ => hkept⟩
  · exact ⟨h.events, h.who, h.promoted, h.told, by simp, by simp, fun hbusy => h.dead (hbusy.imp_left (by simp)),
      by simp, fun _ => hkept⟩

theorem Good.die (h : x.Good owned false ended) :
    Good (if x.obituary = .held then { x with obituary := .sent } else x) owned true ended := by
  split_ifs with hheld
  · exact ⟨h.events, h.who, h.promoted, h.told, fun _ => h.waiting (by simp [hheld]), by simp, fun _ => rfl, h.holding,
      by simpa [hheld, reported] using h.kept⟩
  · exact ⟨h.events, h.who, h.promoted, h.told, h.waiting, fun hh => absurd hh hheld, fun _ => rfl, h.holding, h.kept⟩

/-- A report finds the object of a link that the recipient holds. -/
theorem Good.report (h : x.Good owned sent (!(owned || x.stage ≠ .away))) (hobituary : x.obituary = .sent) :
    Good { x with obituary := .absent, stage := if owned then .promoted else .away } owned sent (!owned) := by
  obtain ⟨hreported, haway⟩ := h.waiting (by simp [hobituary])
  have hevents : x.events = if owned = false then [.onUnlinked] else [] := by simpa [hreported, haway] using h.events
  have hwho : x.mWho = true := by simpa [hreported] using h.who
  have hkept : x.linked = true → x.excused = false → owned = true := by
    simpa [hreported, haway, hobituary] using h.kept
  have hdied : Event.onBinderDied ∉ x.events := of_decide_eq_false hreported
  exact ⟨by simp [reported, hevents], by simp [reported, hdied, hwho], fun _ => hreported,
    by cases owned <;> simp, by simp, by simp, fun _ => h.dead (.inl hobituary), h.holding,
    fun hlinked hexcused => .inr (.inl (by simp [hkept hlinked hexcused]))⟩

theorem Good.tell (h : x.Good owned sent false) (hstage : x.stage = .promoted) :
    Good { x with stage := .told, events := x.events ++ [.onBinderDied] } owned sent false := by
  have hreported := h.promoted hstage
  have hevents : x.events = [] := by simpa [hreported] using h.events
  have hwho : x.mWho = true := by simpa [hstage] using h.who
  have hobituary : x.obituary = .absent := by
    by_contra hobituary
    simpa [hstage] using h.waiting hobituary
  exact ⟨by simp [reported, hevents], by simp [hwho], by simp, by simp [reported], by simp [hobituary],
    by simp [hobituary], fun _ => h.dead (by simp [hstage]), h.holding, by simp [reported]⟩

/-- A report that told the user goes on, or comes to its end. -/
theorem Good.goOn (h : x.Good owned sent false) (hreported : x.reported = true) (hobituary : x.obituary = .absent)
    (hdead : sent = true) (stage : Stage) (hstage : stage ≠ .promoted) (who : Bool)
    (hwho : who = false ↔ stage = .away) :
    Good { x with stage := stage, mWho := who } owned sent false where
  events := h.events
  who := hwho.trans (by simp [reported, show (Event.onBinderDied ∈ x.events) from of_decide_eq_true hreported])
  promoted hpromoted := absurd hpromoted hstage
  told _ := hreported
  waiting hwaiting := absurd hobituary hwaiting
  alive hheld := by simp [hobituary] at hheld
  dead _ := hdead
  holding := h.holding
  kept _ _ := .inl hreported

theorem Good.of_busy (h : x.Good owned sent ended) (hbusy : x.stage ≠ .away) :
    x.reported = true ∨ x.stage = .promoted := by
  have htold := h.told
  cases hstage : x.stage <;> simp_all

theorem Good.complete (h : x.Good owned true ended) (hlinked : x.linked = true) (hexcused : x.excused = false) :
    x.reported = true ∨ x.stage = .promoted ∨ owned = true ∧ x.obituary = .sent := by
  rcases h.kept hlinked hexcused with hreported | hpromoted | ⟨howned, hobituary⟩
  · exact .inl hreported
  · exact .inr (.inl hpromoted)
  · have halive := h.alive
    cases hx : x.obituary <;> simp_all

end Good

end Link

namespace DeathRecipient

section Run

variable {s s' : DeathRecipient} {t b cookie : ℕ} {x : Link}

/-- Every link is good, except that the user has not been told yet of the end of those in `ts`. -/
def GoodBut (ts : List ℕ) (s : DeathRecipient) : Prop :=
  ∀ t (x : Link), s.links[t]? = some x → x.Good (t ∈ s.mDeathRecipients) (s.dead x.binder) (t ∉ ts && !s.referenced t x)

structure Kept (s : DeathRecipient) : Prop where
  good : s.GoodBut []
  nodup : s.mDeathRecipients.Nodup
  bound : ∀ t ∈ s.mDeathRecipients, t < s.links.length
  checked : s.aborted = false

variable {ts : List ℕ} {f : Link → Link} {strongWho : Bool}

theorem GoodBut.release (h : s.GoodBut ts) : (s.release ts).GoodBut [] := by
  intro t x hx
  obtain ⟨y, hy, rfl⟩ : ∃ y, s.links[t]? = some y ∧ (if t ∈ ts ∧ s.referenced t y = false then
      { y with events := y.events ++ [.onUnlinked] } else y) = x := by
    simpa [DeathRecipient.release] using hx
  have hgood := h t y hy
  split_ifs with hlost
  · have hend : Link.Good _ (t ∈ s.mDeathRecipients) (s.dead y.binder) true :=
      Link.Good.end (by simpa [hlost.1] using hgood)
    have hended : (!s.referenced t y) = true := by simp [hlost.2]
    rw [← hended] at hend
    exact hend
  · have hended : (t ∉ ts && !s.referenced t y) = !s.referenced t y := by
      by_cases ht : t ∈ ts <;> simp_all
    rw [hended] at hgood
    exact hgood

theorem kept_release (h : s.GoodBut ts) (hnodup : s.mDeathRecipients.Nodup)
    (hbound : ∀ t ∈ s.mDeathRecipients, t < s.links.length) (hchecked : s.aborted = false) : Kept (s.release ts) where
  good := h.release
  nodup := hnodup
  bound := by simpa [DeathRecipient.release] using hbound
  checked := hchecked

/-- A step that changes one link, and may take its object out of the recipient. -/
theorem Kept.change (h : Kept s) (hx : s.links[t]? = some x) {owned : List ℕ} (ts : List ℕ)
    (hsub : owned.Sublist s.mDeathRecipients) (howned : ∀ t', t' ≠ t → t' ∈ s.mDeathRecipients → t' ∈ owned)
    (hts : ∀ t' ∈ ts, t' = t) (hbinder : (f x).binder = x.binder)
    (hgood : (f x).Good (t ∈ owned) (s.dead x.binder) (t ∉ ts && !(t ∈ owned || (f x).stage ≠ .away))) :
    Kept (release ts (modify t f { s with mDeathRecipients := owned })) := by
  apply kept_release
  · intro t' x' hx'
    by_cases ht : t' = t
    · subst ht
      obtain rfl : f x = x' := by simpa [DeathRecipient.modify, hx] using hx'
      rw [hbinder]
      exact hgood
    · have hx' : s.links[t']? = some x' := by simpa [DeathRecipient.modify, Ne.symm ht] using hx'
      have hmem : t' ∈ owned ↔ t' ∈ s.mDeathRecipients := ⟨fun hmem => hsub.subset hmem, howned t' ht⟩
      have hnot : t' ∉ ts := fun hmem => ht (hts t' hmem)
      simpa [DeathRecipient.modify, referenced, hmem, hnot] using h.good t' x' hx'
  · exact h.nodup.sublist hsub
  · intro t' ht'
    simpa [DeathRecipient.modify] using h.bound t' (hsub.subset ht')
  · exact h.checked

theorem release_nil (s : DeathRecipient) : s.release [] = s := by
  simp [release, mapIdx_eq_zipIdx_map]

/-- The same for a step that takes nothing out. -/
theorem Kept.change_link (h : Kept s) (hx : s.links[t]? = some x) (hbinder : (f x).binder = x.binder)
    (hgood : (f x).Good (t ∈ s.mDeathRecipients) (s.dead x.binder)
      (!(t ∈ s.mDeathRecipients || (f x).stage ≠ .away))) : Kept (s.modify t f) := by
  have hkept := h.change hx (f := f) [] (List.Sublist.refl _) (fun _ _ hmem => hmem) (by simp) hbinder
    (by simpa using hgood)
  rwa [release_nil] at hkept

theorem Kept.good_link (h : Kept s) (hx : s.links[t]? = some x) :
    x.Good (t ∈ s.mDeathRecipients) (s.dead x.binder) (!(t ∈ s.mDeathRecipients || x.stage ≠ .away)) := by
  simpa [referenced] using h.good t x hx

theorem lastFor_mem (hlast : s.lastFor b cookie = some t) : t ∈ s.mDeathRecipients ∧ ∃ x, s.links[t]? = some x ∧
    x.mCookie = cookie ∧ x.mWho = true ∧ x.binder = b := by
  have hfor := List.find?_some hlast
  have hmem := mem_of_find?_eq_some hlast
  simpa [isFor, Option.any_eq_true, and_assoc] using And.intro hmem hfor

theorem Kept.unlinkToDeath (h : Kept s) {excused : Bool}
    (hgone : excused = true ∨ ∀ t ∈ s.lastFor b cookie, ∀ x ∈ s.links[t]?, x.stage ≠ .away) :
    Kept (s.unlinkToDeath b cookie excused) := by
  unfold DeathRecipient.unlinkToDeath
  cases hlast : s.lastFor b cookie with
  | none => exact h
  | some t =>
    obtain ⟨hmem, x, hx, -, -, rfl⟩ := lastFor_mem hlast
    have hnot : t ∉ s.mDeathRecipients.erase t := h.nodup.not_mem_erase
    have hgood := h.good_link hx
    simp only [hmem, decide_true, Bool.true_or, Bool.not_true] at hgood
    apply h.change hx _ erase_sublist
    · intro t' ht hmem'
      exact (mem_erase_of_ne ht).mpr hmem'
    · simp
    · rfl
    · simpa [hnot] using hgood.unlink (if s.dead x.binder then x.obituary else .absent) (by grind) _
        (hgone.imp_right fun hbusy => hgood.of_busy (hbusy t hlast x hx))

theorem Kept.reportOneDeath (h : Kept s) (hx : s.links[t]? = some x) (hobituary : x.obituary = .sent) :
    Kept (s.modify t fun x => { x with
      obituary := .absent, stage := if s.referenced t x then .promoted else .away }) := by
  have hgood := h.good_link hx
  have haway := (hgood.waiting (by simp [hobituary])).2
  apply h.change_link hx rfl
  have hreport := hgood.report hobituary
  by_cases hmem : t ∈ s.mDeathRecipients <;> simpa [referenced, hmem, haway] using hreport

theorem Kept.onDied (h : Kept s) (hx : s.links[t]? = some x) (hstage : x.stage = .promoted) :
    Kept (s.modify t fun x => { x with stage := .told, events := x.events ++ [.onBinderDied] }) := by
  apply h.change_link hx rfl
  have hgood := h.good_link hx
  simpa using Link.Good.tell (by simpa [hstage] using hgood) hstage

/-- What a report knows of the link that it told the user about. -/
theorem Kept.after_report (h : Kept s) (hx : s.links[t]? = some x) (hstage : x.stage = .told ∨ x.stage = .unlinked) :
    x.Good (t ∈ s.mDeathRecipients) (s.dead x.binder) false ∧ x.reported = true ∧ x.obituary = .absent ∧
      s.dead x.binder = true := by
  have hgood := h.good_link hx
  have hbusy : x.stage ≠ .away := by rcases hstage with hstage | hstage <;> simp [hstage]
  simp only [hbusy, ne_eq, not_false_eq_true, decide_true, Bool.or_true, Bool.not_true] at hgood
  have hreported := hgood.told hstage
  refine ⟨hgood, hreported, ?_, hgood.dead (.inr hbusy)⟩
  by_contra hobituary
  exact hbusy (hgood.waiting hobituary).2

theorem lastFor_unlinking :
    (s.modify t fun x => { x with stage := .unlinked }).lastFor b cookie = s.lastFor b cookie := by
  have hfor : (s.modify t fun x => { x with stage := .unlinked }).isFor b cookie = s.isFor b cookie := by
    funext t'
    simp only [isFor, modify, List.getElem?_modify]
    cases s.links[t']? with
    | none => rfl
    | some => by_cases ht : t = t' <;> simp [ht]
  unfold lastFor
  rw [hfor]
  rfl

section

variable (h : Kept s)
include h

theorem Kept.unlinking (hx : s.links[t]? = some x) (hstage : x.stage = .told) :
    Kept (s.modify t fun x => { x with stage := .unlinked }) := by
  obtain ⟨hgood, hreported, hobituary, hdead⟩ := h.after_report hx (.inl hstage)
  have hwho : x.mWho = true := by simpa [hstage] using hgood.who
  apply h.change_link hx rfl
  simpa using hgood.goOn hreported hobituary hdead .unlinked (by simp) x.mWho (by simp [hwho])

theorem Kept.finish (hx : s.links[t]? = some x) (hstage : x.stage = .unlinked) :
    Kept (release [t] (s.modify t fun x => { x with mWho := false, stage := .away })) := by
  obtain ⟨hgood, hreported, hobituary, hdead⟩ := h.after_report hx (.inr hstage)
  apply h.change hx _ (List.Sublist.refl _) (fun _ _ hmem => hmem) (by simp) rfl
  simpa using hgood.goOn hreported hobituary hdead .away (by simp) false (by simp)

/-- Objects leave the recipient, and their links may be given up. -/
theorem Kept.drop (gone : ℕ → Bool) (hbinder : ∀ x, (f x).binder = x.binder) (hstage : ∀ x, (f x).stage = x.stage)
    (hdrop : ∀ t x, s.links[t]? = some x → t ∈ s.mDeathRecipients → gone t = true →
      x.Good true (s.dead x.binder) false → (f x).Good false (s.dead x.binder) false)
    (hother : ∀ t x, s.links[t]? = some x → (t ∉ s.mDeathRecipients ∨ gone t = false) → ∀ ended,
      x.Good (t ∈ s.mDeathRecipients) (s.dead x.binder) ended →
        (f x).Good (t ∈ s.mDeathRecipients) (s.dead x.binder) ended) (deleted : Bool) :
    Kept (release (s.mDeathRecipients.filter gone) { s with
      links := s.links.map f
      mDeathRecipients := s.mDeathRecipients.filter fun t => !gone t
      deleted := deleted }) := by
  apply kept_release
  · intro t x' hx'
    obtain ⟨x, hx, rfl⟩ : ∃ x, s.links[t]? = some x ∧ f x = x' := by simpa using hx'
    have hgood := h.good_link hx
    simp only [hbinder, referenced, hstage]
    by_cases hlost : t ∈ s.mDeathRecipients ∧ gone t = true
    · simpa [hlost] using hdrop t x hx hlost.1 hlost.2 (by simpa [hlost] using hgood)
    · have hkeep : t ∉ s.mDeathRecipients ∨ gone t = false := by grind
      have hmem : (t ∈ s.mDeathRecipients ∧ gone t = false) ↔ t ∈ s.mDeathRecipients := by grind
      simpa [hlost, hmem] using hother t x hx hkeep _ hgood
  · exact h.nodup.filter _
  · intro t ht
    simpa using h.bound t (mem_filter.mp ht).1
  · exact h.checked

theorem Kept.prune : Kept s.pruneDeadTransferEntriesLocked := by
  have hkept := h.drop s.isDead (f := id) (fun _ => rfl) (fun _ => rfl) ?_ (fun _ _ _ _ _ hgood => hgood)
    s.deleted
  · simpa [pruneDeadTransferEntriesLocked] using hkept
  · intro t x hx _ hdead hgood
    have hwho : x.mWho = false := by simpa [isDead, hx] using hdead
    exact hgood.drop (.inl (hgood.who.mp hwho).1)

theorem Kept.delete (hok : OpOk s .delete) : Kept (release s.mDeathRecipients { s with
    mDeathRecipients := [], deleted := true
    links := s.links.map fun x => if s.dead x.binder then x else { x with excused := true } }) := by
  have hkept := h.drop (fun _ => true)
    (f := fun x => if s.dead x.binder then x else { x with excused := true }) ?_ ?_ ?_ ?_ true
  · simpa using hkept
  · intro x
    split_ifs <;> rfl
  · intro x
    split_ifs <;> rfl
  · intro t x hx hmem _ hgood
    split_ifs with hdead
    · rw [hdead] at hgood ⊢
      apply hgood.drop
      rcases hgood.complete (hgood.holding rfl).1 (hgood.holding rfl).2 with hreported | hpromoted | ⟨-, hsent⟩
      · exact .inl hreported
      · exact .inr hpromoted
      · exact absurd hsent (hok t hmem x hx)
    · simpa using hgood.unlink _ (.inl rfl) true (.inl rfl)
  · intro t x hx hmem ended hgood
    have hmem : t ∉ s.mDeathRecipients := by simpa using hmem
    split_ifs with hdead
    · exact hgood
    · simpa [hmem] using hgood.unlink _ (.inl rfl) true (.inl rfl)

theorem Kept.sendObituary (b : ℕ) : Kept (s.sendObituary b) := by
  unfold DeathRecipient.sendObituary
  split_ifs with hdead
  · exact h
  · refine ⟨?_, h.nodup, by simpa using h.bound, h.checked⟩
    intro t x' hx'
    obtain ⟨x, hx, rfl⟩ : ∃ x, s.links[t]? = some x ∧
        (if x.binder = b ∧ x.obituary = .held then { x with obituary := .sent } else x) = x' := by
      simpa using hx'
    have hgood := h.good t x hx
    by_cases hb : x.binder = b
    · subst hb
      have hdead : s.dead x.binder = false := by simpa using hdead
      rw [hdead] at hgood
      have hdie := hgood.die
      by_cases hheld : x.obituary = .held
      · simpa [hheld, referenced] using hdie
      · simpa [hheld, referenced] using hdie
    · simp only [hb, false_and, if_false, Function.update_of_ne hb]
      exact hgood

/-- A link is added, in the recipient or not. -/
theorem Kept.append {y : Link} {owned : List ℕ} (howned : owned.Sublist [s.links.length])
    (hgood : y.Good (s.links.length ∈ owned) (s.dead y.binder) (!(s.links.length ∈ owned || y.stage ≠ .away))) :
    Kept { s with links := s.links ++ [y], mDeathRecipients := s.mDeathRecipients ++ owned } := by
  have hnew {t : ℕ} (ht : t ∈ owned) : t = s.links.length := by simpa using howned.subset ht
  have hnot : s.links.length ∉ s.mDeathRecipients := fun hmem => absurd (h.bound _ hmem) (Nat.lt_irrefl _)
  refine ⟨?_, ?_, ?_, h.checked⟩
  · intro t x hx
    rw [List.getElem?_append] at hx
    split_ifs at hx with ht
    · have hold : t ∉ owned := fun hmem => absurd ht (by simp [hnew hmem])
      simpa [hold, referenced] using h.good_link hx
    · obtain ⟨ht, rfl⟩ : t - s.links.length = 0 ∧ y = x := by simpa [List.getElem?_singleton] using hx
      obtain rfl : t = s.links.length := by omega
      simpa [hnot, referenced] using hgood
  · rw [nodup_append]
    refine ⟨h.nodup, (nodup_singleton _).sublist howned, ?_⟩
    rintro t ht t' ht' rfl
    exact hnot (hnew ht' ▸ ht)
  · intro t ht
    rcases mem_append.mp ht with ht | ht
    · exact Nat.lt_of_lt_of_le (h.bound t ht) (by simp)
    · simp [hnew ht]

theorem Kept.linkToDeath (b cookie : ℕ) (ok : Bool) : Kept (s.linkToDeath b cookie ok) := by
  unfold DeathRecipient.linkToDeath
  split_ifs with hok
  · have hdead : s.dead b = false := by simpa using (Bool.and_eq_true_iff.mp hok).2
    apply Kept.prune
    apply h.append (List.Sublist.refl _)
    constructor <;> simp [Link.reported, hdead]
  · have hkept := h.append (nil_sublist _) (y := {
      binder := b, mCookie := cookie, linked := false, obituary := .absent, events := [.onUnlinked] })
      (by constructor <;> simp [Link.reported])
    simpa using hkept

end

theorem kept_init : Kept {} := ⟨by simp [GoodBut], by simp, by simp, rfl⟩

/-- The steps of a report take the link they need. -/
theorem of_map_filter {p : Link → Bool} {f : Link → DeathRecipient} (hs : (s.links[t]?.filter p).map f = some s') :
    ∃ x, s.links[t]? = some x ∧ p x = true ∧ f x = s' := by
  simpa [Option.map_eq_some_iff, Option.filter_eq_some_iff, and_assoc] using hs

theorem Kept.unlink (h : Kept s) (hx : s.links[t]? = some x) (hstage : x.stage = .told)
    (hok : OpOk s (.unlink t strongWho)) : Kept ( let s := s.modify t fun x => { x with stage := .unlinked }
      if !s.deleted && strongWho then s.unlinkToDeath x.binder x.mCookie false else s) := by
  have hkept := h.unlinking hx hstage
  dsimp only
  split_ifs with hcall
  · have hcall : s.deleted = false ∧ strongWho = true := by simpa [modify] using hcall
    apply hkept.unlinkToDeath
    refine .inr fun t' hlast y hy => ?_
    rw [lastFor_unlinking] at hlast
    by_cases ht : t = t'
    · obtain rfl : { x with stage := .unlinked } = y := by simpa [modify, ← ht, hx] using hy
      simp
    · exact hok hcall.1 hcall.2 x hx t' hlast y (by simpa [modify, ht] using hy)
  · exact hkept

theorem Kept.step (h : Kept s) {op : Op} (hok : OpOk s op) (hs : s.step op = some s') : Kept s' := by
  cases op with
  | linkToDeath b cookie ok =>
    have hs : (if s.deleted then none else some (s.linkToDeath b cookie ok)) = some s' := hs
    obtain ⟨-, rfl⟩ := by simpa using hs
    exact h.linkToDeath b cookie ok
  | unlinkToDeath b cookie =>
    have hs : (if s.deleted then none else some (s.unlinkToDeath b cookie true)) = some s' := hs
    obtain ⟨-, rfl⟩ := by simpa using hs
    exact h.unlinkToDeath (.inl rfl)
  | delete =>
    unfold DeathRecipient.step at hs
    obtain ⟨-, rfl⟩ := by simpa using hs
    exact h.delete hok
  | sendObituary b =>
    cases hs
    exact h.sendObituary b
  | reportOneDeath b =>
    obtain ⟨t, hfind, rfl⟩ : ∃ t, (s.links.findIdx? fun x => x.binder = b && x.obituary = .sent) = some t ∧ _ = s' := by
      simpa using (Option.ite_none_left_eq_some.mp hs).2
    obtain ⟨x, hx, hobituary⟩ : ∃ x, s.links[t]? = some x ∧ x.obituary = .sent := by
      obtain ⟨hlt, hfor, -⟩ := List.findIdx?_eq_some_iff_getElem.mp hfind
      exact ⟨_, List.getElem?_eq_getElem hlt, by simpa using (Bool.and_eq_true_iff.mp hfor).2⟩
    exact h.reportOneDeath hx hobituary
  | onDied =>
    obtain ⟨x, hx, hstage, rfl⟩ := of_map_filter hs
    have hstage : x.stage = .promoted := by simpa using hstage
    have hwho : x.mWho = true := by simpa [hstage] using (h.good_link hx).who
    rw [if_pos hwho]
    exact h.onDied hx hstage
  | unlink =>
    obtain ⟨x, hx, hstage, rfl⟩ := of_map_filter hs
    exact h.unlink hx (by simpa using hstage) hok
  | finish =>
    obtain ⟨x, hx, hstage, rfl⟩ := of_map_filter hs
    exact h.finish hx (by simpa using hstage)

theorem kept_of_reachable (h : Reachable step OpOk {} s) : Kept s :=
  h.invariant Kept kept_init fun _ _ _ hkept hok hs => hkept.step hok hs

/-- A successful link that was not given up before the binder died has been reported, or is about to be. -/
def Complete (s : DeathRecipient) : Prop :=
  ∀ t (x : Link), s.links[t]? = some x → x.linked = true → x.excused = false → s.dead x.binder = true →
    x.reported = true ∨ x.stage = .promoted ∨ t ∈ s.mDeathRecipients ∧ x.obituary = .sent

theorem Kept.complete (h : Kept s) : s.Complete := by
  intro t x hx hlinked hexcused hdead
  have hgood := h.good_link hx
  rw [hdead] at hgood
  simpa using hgood.complete hlinked hexcused

/-- A link that loses its object before its report is never told of the death. -/
theorem not_complete_release (hx : s.links[t]? = some x) (hlinked : x.linked = true) (hexcused : x.excused = false)
    (hdead : s.dead x.binder = true) (hreported : x.reported = false) (haway : x.stage = .away)
    (hnot : t ∉ s.mDeathRecipients) (ts : List ℕ) : ¬ (s.release ts).Complete := by
  intro hcomplete
  have hdied : Event.onBinderDied ∉ x.events := of_decide_eq_false hreported
  have hlost := hcomplete t (if t ∈ ts ∧ s.referenced t x = false then
    { x with events := x.events ++ [.onUnlinked] } else x) (by simp [release, hx])
  split_ifs at hlost <;> simp [release, hlinked, hexcused, hdead, Link.reported, hdied, haway, hnot] at hlost

/-- The recipient is deleted while an object waits for its report. -/
theorem Kept.not_complete_delete (h : Kept s) (hs : s.step .delete = some s') (hbad : ¬ OpOk s .delete) :
    ¬ s'.Complete := by
  unfold DeathRecipient.step at hs
  obtain ⟨-, rfl⟩ := by simpa using hs
  simp only [OpOk, not_forall, not_not] at hbad
  obtain ⟨t, hmem, x, hx, hsent⟩ := hbad
  have hgood := h.good_link hx
  obtain ⟨hreported, haway⟩ := hgood.waiting (by simp [hsent])
  obtain ⟨hlinked, hexcused⟩ := hgood.holding (by simpa using hmem)
  have hdead := hgood.dead (.inl hsent)
  apply not_complete_release (t := t) ?_ hlinked hexcused ?_ hreported haway
  · simp
  · simp [show s.links[t]? = some x from hx, hdead]
  · exact hdead

/-- A report removes an object in the place of its own. -/
theorem Kept.not_complete_unlink (h : Kept s) (hs : s.step (.unlink t strongWho) = some s')
    (hbad : ¬ OpOk s (.unlink t strongWho)) : ¬ s'.Complete := by
  simp only [OpOk, not_forall, not_not] at hbad
  obtain ⟨hdeleted, hwho, x, hx, t', hlast, x', hx', haway⟩ := hbad
  obtain ⟨y, hy, hstage, rfl⟩ := of_map_filter hs
  obtain rfl : x = y := by simpa [hy] using hx.symm
  have hstage : x.stage = .told := by simpa using hstage
  have hne : t ≠ t' := by
    rintro rfl
    obtain rfl : x = x' := by simpa [hy] using hx'
    simp [hstage] at haway
  obtain ⟨hmem, x₁, hx₁, -, hwho', hbinder⟩ := lastFor_mem hlast
  obtain rfl : x₁ = x' := by simpa [hx₁] using hx'
  have hgood := h.good_link hx₁
  obtain ⟨hlinked, hexcused⟩ := hgood.holding (by simpa using hmem)
  have hdead := (h.after_report hy (.inl hstage)).2.2.2
  have hreported : x₁.reported = false := by
    by_contra hreported
    simp [hgood.who.mpr ⟨by simpa using hreported, haway⟩] at hwho'
  have hlast' : (s.modify t fun x => { x with stage := .unlinked }).lastFor x.binder x.mCookie = some t' :=
    lastFor_unlinking.trans hlast
  have hcall : (!(s.modify t fun x => { x with stage := .unlinked }).deleted && strongWho) = true := by
    simp [modify, hdeleted, hwho]
  rw [if_pos hcall, DeathRecipient.unlinkToDeath, hlast']
  apply not_complete_release (t := t') (x := x₁) ?_ hlinked hexcused ?_ hreported haway
  · exact h.nodup.not_mem_erase
  · simp [modify, hne, hx₁, hdead]
  · rw [← hbinder] at hdead
    exact hdead

/-- If each object that a report removes is being reported itself, and the recipient is not deleted between a death and
its report, then each link is reported once, and ended once, behind its report; and no other step keeps this. -/
theorem links_complete (h : Reachable step OpOk {} s) : s.Complete ∧
      (∀ t (x : Link), s.links[t]? = some x → x.events = (if x.reported then [.onBinderDied] else []) ++
        if s.referenced t x then [] else [.onUnlinked]) ∧
      s.aborted = false ∧
      ∀ op s', s.step op = some s' → (s'.Complete ↔ OpOk s op) := by
  have hkept := kept_of_reachable h
  refine ⟨hkept.complete, ?_, hkept.checked, ?_⟩
  · intro t x hx
    have hevents := (hkept.good t x hx).events
    cases href : s.referenced t x <;> simpa [href] using hevents
  · intro op s' hs
    constructor
    · intro hcomplete
      by_contra hbad
      cases op with
      | delete => exact hkept.not_complete_delete hs hbad hcomplete
      | unlink => exact hkept.not_complete_unlink hs hbad hcomplete
      | _ => exact hbad trivial
    · intro hok
      exact (hkept.step hok hs).complete

/-- Three links with the same binder and different cookies, one of which the user removes: both others are told of the
death and then of their end. -/
theorem links_complete_twice : ∃ s, Reachable step OpOk {} s ∧ s.Complete ∧ s.links.map (·.events) =
    [[.onBinderDied, .onUnlinked], [.onUnlinked], [.onBinderDied, .onUnlinked]] := by
  obtain ⟨s, hs, hevents⟩ := exists_reachable step OpOk {}
    [.linkToDeath 1 7 true, .linkToDeath 1 8 true, .linkToDeath 1 9 true, .unlinkToDeath 1 8, .sendObituary 1,
      .reportOneDeath 1, .onDied 0, .unlink 0 true, .finish 0, .reportOneDeath 1, .onDied 2, .unlink 2 true, .finish 2]
    (fun s => s.links.map (·.events) =
      [[.onBinderDied, .onUnlinked], [.onUnlinked], [.onBinderDied, .onUnlinked]]) (by decide +kernel)
  exact ⟨s, hs, (links_complete hs).1, hevents⟩

/-- The same binder and cookie is linked twice: the report to the first link removes the object of the second one, which
is ended without a report, and the first object stays in the recipient. -/
theorem not_links_complete : ∃ s, Reachable step Free {} s ∧ s.deleted = false ∧ s.mDeathRecipients = [0] ∧
    s.links.map (·.events) = [[.onBinderDied], [.onUnlinked]] ∧ ¬ s.Complete := by
  obtain ⟨s, hs, hdeleted, howned, hevents, hdead, hlink⟩ := exists_reachable step Free {}
    [.linkToDeath 1 7 true, .linkToDeath 1 7 true, .sendObituary 1, .reportOneDeath 1, .onDied 0, .unlink 0 true,
      .finish 0, .reportOneDeath 1]
    (fun s => s.deleted = false ∧ s.mDeathRecipients = [0] ∧
      s.links.map (·.events) = [[.onBinderDied], [.onUnlinked]] ∧ s.dead 1 = true ∧
      s.links[1]? = some { binder := 1, mCookie := 7, obituary := .absent, events := [.onUnlinked] })
    (by decide +kernel)
  refine ⟨s, hs, hdeleted, howned, hevents, ?_⟩
  intro hcomplete
  have hlost := hcomplete 1 _ hlink rfl rfl hdead
  simp [Link.reported] at hlost

end Run

end DeathRecipient

end Binder.Ndk
