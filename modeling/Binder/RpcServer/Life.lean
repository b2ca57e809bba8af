import Mathlib.Data.List.Nodup

/-! The life of one session: threads come to own it, are accepted with a connection or refused, and
leave again; when the last connection is gone the session ends. -/
namespace Binder.RpcServer
open List Function

/-- Where a thread stands with respect to the session. -/
inductive Stage
  | away
  | owned
  | joined (connection : Option ℕ) (running : Bool)
  | detached (connection : Option ℕ)
  | ending

inductive Mark
  | accepted (c : ℕ)
  | removed (c : ℕ)
  | ended (registered : Bool) (left : ℕ)

structure Life where
  incoming : List ℕ
  /-- how many connections there have been at once -/
  high : ℕ
  fresh : ℕ
  owners : List ℕ
  stage : ℕ → Stage
  registered : Bool
  marks : List Mark

namespace Life

def put (l : Life) (t : ℕ) (x : Stage) : Life := { l with stage := update l.stage t x }

def mark (l : Life) (m : Mark) : Life := { l with marks := l.marks ++ [m] }

inductive Step : Life → Life → Prop
  | own {l : Life} (t : ℕ) : l.stage t = .away →
      Step l ({ l with owners := l.owners.insert t }.put t .owned)
  | refuse {l : Life} (t : ℕ) : l.stage t = .owned → Step l (l.put t (.joined none false))
  | accept {l : Life} (t : ℕ) : l.stage t = .owned → l.high ≤ l.incoming.length →
      Step l (({ l with
        incoming := l.incoming ++ [l.fresh]
        high := l.incoming.length + 1
        fresh := l.fresh + 1 }.put t (.joined (some l.fresh) false)).mark (.accepted l.fresh))
  | progress {l : Life} (t : ℕ) (c : Option ℕ) (b b' : Bool) : l.stage t = .joined c b →
      (b' = true → c ≠ none ∨ b = true) → Step l (l.put t (.joined c b'))
  | detach {l : Life} (t : ℕ) (c : Option ℕ) (b : Bool) : l.stage t = .joined c b →
      Step l ({ l with owners := l.owners.erase t }.put t (.detached c))
  | depart {l : Life} (t : ℕ) : l.stage t = .detached none → Step l (l.put t .away)
  | remove {l : Life} (t c : ℕ) (x : Stage) : l.stage t = .detached (some c) →
      x = .away ∨ x = .ending ∧ l.incoming.erase c = [] →
      Step l (({ l with incoming := l.incoming.erase c }.put t x).mark (.removed c))
  | finish {l : Life} (t : ℕ) : l.stage t = .ending →
      Step l (({ l with registered := false }.put t .away).mark (.ended l.registered l.incoming.length))
  | grow {l : Life} (fresh : ℕ) : l.fresh ≤ fresh → Step l { l with fresh := fresh }

end Life

def Stage.connection : Stage → Option ℕ
  | .joined c _ => c
  | .detached c => c
  | _ => none

namespace Life

/-- Connections in the list belong to one thread each, and once one has gone none is accepted. -/
structure Sound (l : Life) : Prop where
  nodup : l.incoming.Nodup
  lt_fresh : ∀ c ∈ l.incoming, c < l.fresh
  le_high : l.incoming.length ≤ l.high
  owner : ∀ t, l.stage t = .owned ∨ (∃ c b, l.stage t = .joined c b) → t ∈ l.owners
  connection : ∀ t c, (l.stage t).connection = some c → c ∈ l.incoming
  unique : ∀ t u c, (l.stage t).connection = some c → (l.stage u).connection = some c → t = u
  running : ∀ t, l.stage t ≠ .joined none true
  removed : ∀ c, .removed c ∈ l.marks → l.incoming.length < l.high
  closed : l.marks.Pairwise fun m m' => ∀ c d, m = .removed c → m' ≠ .accepted d

/-- The session ends at most once, with no connection left and still registered. -/
structure Ends (l : Life) : Prop where
  empty : (∃ r n, .ended r n ∈ l.marks) ∨ (∃ t, l.stage t = .ending) → l.incoming = [] ∧ 0 < l.high
  ended : ∀ r n, .ended r n ∈ l.marks → r = true ∧ n = 0
  once : l.marks.Pairwise fun m m' => ∀ r n r' n', m = .ended r n → m' ≠ .ended r' n'
  registered : l.registered = true ↔ ∀ r n, .ended r n ∉ l.marks
  ending : ∀ t u, l.stage t = .ending → l.stage u = .ending → t = u
  pending : ∀ t, l.stage t = .ending → l.registered = true

variable {l l' : Life}

section Sound

variable {t u c : ℕ} {x : Stage} {m : Mark}

theorem put_stage_self (l : Life) (t : ℕ) (x : Stage) : (l.put t x).stage t = x :=
  update_self ..

theorem put_stage_of_ne (l : Life) (x : Stage) (h : u ≠ t) : (l.put t x).stage u = l.stage u :=
  update_of_ne h ..

/-- A thread that gets no new connection has no other one than before. -/
theorem connection_of_put (hx : ∀ c, x.connection = some c → (l.stage t).connection = some c)
    (hc : ((l.put t x).stage u).connection = some c) : (l.stage u).connection = some c := by
  by_cases hu : u = t
  · subst hu
    rw [put_stage_self] at hc
    exact hx c hc
  · rwa [put_stage_of_ne l x hu] at hc

/-- A thread moves on without a new connection. -/
theorem Sound.put (h : l.Sound) (hx : ∀ c, x.connection = some c → (l.stage t).connection = some c)
    (howner : x = .owned ∨ (∃ c b, x = .joined c b) → t ∈ l.owners) (hrun : x ≠ .joined none true) :
    (l.put t x).Sound where
  nodup := h.nodup
  lt_fresh := h.lt_fresh
  le_high := h.le_high
  owner u hu := by
    by_cases hut : u = t
    · subst hut
      rw [put_stage_self] at hu
      exact howner hu
    · rw [put_stage_of_ne l x hut] at hu
      exact h.owner u hu
  connection u c hc := h.connection u c (connection_of_put hx hc)
  unique u v c hu hv := h.unique u v c (connection_of_put hx hu) (connection_of_put hx hv)
  running u := by
    by_cases hut : u = t
    · subst hut
      rwa [put_stage_self]
    · rw [put_stage_of_ne l x hut]
      exact h.running u
  removed := h.removed
  closed := h.closed

theorem Sound.mark (h : l.Sound) (haccepted : ∀ d, m ≠ .accepted d) (hremoved : ∀ d, m ≠ .removed d) :
    (l.mark m).Sound where
  nodup := h.nodup
  lt_fresh := h.lt_fresh
  le_high := h.le_high
  owner := h.owner
  connection := h.connection
  unique := h.unique
  running := h.running
  removed d hd := by
    rcases mem_append.mp hd with hd | hd
    · exact h.removed d hd
    · exact absurd (mem_singleton.mp hd).symm (hremoved d)
  closed := by
    refine pairwise_append.mpr ⟨h.closed, pairwise_singleton _ _, ?_⟩
    intro a _ b hb c d _
    rw [mem_singleton.mp hb]
    exact haccepted d

theorem Sound.accept (h : l.Sound) (ht : l.stage t = .owned) (hhigh : l.high ≤ l.incoming.length) : Sound (({ l with
      incoming := l.incoming ++ [l.fresh]
      high := l.incoming.length + 1
      fresh := l.fresh + 1 }.put t (.joined (some l.fresh) false)).mark (.accepted l.fresh)) := by
  have hfresh : l.fresh ∉ l.incoming := fun hmem => Nat.lt_irrefl _ (h.lt_fresh _ hmem)
  have hnone : ∀ d, .removed d ∉ l.marks := fun d hd => Nat.not_lt.mpr hhigh (h.removed d hd)
  -- the connection of the thread is new, those of the others are the ones they had
  have hconn : ∀ {u d}, (update l.stage t (.joined (some l.fresh) false) u).connection =
      some d → (u = t ∧ d = l.fresh) ∨ (l.stage u).connection = some d ∧ d ≠ l.fresh := by
    intro u d hd
    by_cases hu : u = t
    · rw [hu, update_self] at hd
      exact .inl ⟨hu, (Option.some.inj hd).symm⟩
    · rw [update_of_ne hu] at hd
      exact .inr ⟨hd, fun heq => hfresh (heq ▸ h.connection u d hd)⟩
  constructor
  · refine nodup_append.mpr ⟨h.nodup, nodup_singleton _, ?_⟩
    rintro d hd _ he rfl
    exact hfresh (mem_singleton.mp he ▸ hd)
  · intro d hd
    rcases mem_append.mp hd with hd | hd
    · exact Nat.lt_succ_of_lt (h.lt_fresh d hd)
    · rw [mem_singleton.mp hd]
      exact Nat.lt_succ_self _
  · simp [Life.mark, Life.put]
  · intro u hu
    by_cases hut : u = t
    · exact hut ▸ h.owner t (.inl ht)
    · exact h.owner u (by simpa [Life.mark, Life.put, hut] using hu)
  · intro u d hd
    rcases hconn hd with ⟨-, rfl⟩ | ⟨hd, -⟩
    · exact mem_append_right _ (mem_singleton_self _)
    · exact mem_append_left _ (h.connection u d hd)
  · intro u v d hu hv
    rcases hconn hu with ⟨rfl, rfl⟩ | ⟨hu, hne⟩ <;> rcases hconn hv with ⟨rfl, hd⟩ | ⟨hv, hne'⟩
    · rfl
    · exact absurd rfl hne'
    · exact absurd hd hne
    · exact h.unique u v d hu hv
  · intro u
    by_cases hut : u = t
    · simp [Life.mark, Life.put, hut]
    · simpa [Life.mark, Life.put, hut] using h.running u
  · intro d hd
    rcases mem_append.mp hd with hd | hd
    · exact absurd hd (hnone d)
    · cases mem_singleton.mp hd
  · refine pairwise_append.mpr ⟨h.closed, pairwise_singleton _ _, ?_⟩
    rintro a ha b - c d rfl
    exact absurd ha (hnone c)

theorem Sound.remove (h : l.Sound) (ht : l.stage t = .detached (some c)) (hx : x.connection = none)
    (howned : x ≠ .owned) (hjoined : ∀ d b, x ≠ .joined d b) :
    Sound (({ l with incoming := l.incoming.erase c }.put t x).mark (.removed c)) := by
  have htc : (l.stage t).connection = some c := by rw [ht]; rfl
  have hlength : (l.incoming.erase c).length + 1 = l.incoming.length :=
    length_erase_add_one (h.connection t c htc)
  have hle := h.le_high
  have hconn : ∀ {u d}, (update l.stage t x u).connection = some d →
      u ≠ t ∧ (l.stage u).connection = some d := by
    intro u d hd
    by_cases hu : u = t
    · rw [hu, update_self, hx] at hd
      cases hd
    · rw [update_of_ne hu] at hd
      exact ⟨hu, hd⟩
  constructor
  · exact h.nodup.erase c
  · exact fun d hd => h.lt_fresh d (mem_of_mem_erase hd)
  · change (l.incoming.erase c).length ≤ l.high
    omega
  · intro u hu
    by_cases hut : u = t
    · simp [Life.mark, Life.put, hut, howned, hjoined] at hu
    · exact h.owner u (by simpa [Life.mark, Life.put, hut] using hu)
  · intro u d hd
    obtain ⟨hut, hd⟩ := hconn hd
    have hdc : d ≠ c := fun heq => hut (h.unique u t c (heq ▸ hd) htc)
    exact (mem_erase_of_ne hdc).mpr (h.connection u d hd)
  · exact fun u v d hu hv => h.unique u v d (hconn hu).2 (hconn hv).2
  · intro u
    by_cases hut : u = t
    · simp [Life.mark, Life.put, hut, hjoined]
    · simpa [Life.mark, Life.put, hut] using h.running u
  · intro d _
    change (l.incoming.erase c).length < l.high
    omega
  · refine pairwise_append.mpr ⟨h.closed, pairwise_singleton _ _, ?_⟩
    intro a _ b hb c d _
    rw [mem_singleton.mp hb]
    exact Mark.noConfusion

theorem Sound.step (h : l.Sound) (hs : Step l l') : l'.Sound := by
  cases hs with
  | own t =>
    have howners : ({ l with owners := l.owners.insert t } : Life).Sound :=
      ⟨h.nodup, h.lt_fresh, h.le_high, fun u hu => mem_insert_of_mem (h.owner u hu),
        h.connection, h.unique, h.running, h.removed, h.closed⟩
    exact howners.put (by rintro c ⟨⟩) (fun _ => mem_insert_self) Stage.noConfusion
  | refuse t ht => exact h.put (by rintro c ⟨⟩) (fun _ => h.owner t (.inl ht)) (by simp)
  | accept t ht hhigh => exact h.accept ht hhigh
  | progress t c b _ ht hb =>
    refine h.put (fun d hd => ht ▸ hd) (fun _ => h.owner t (.inr ⟨c, b, ht⟩)) ?_
    intro heq
    obtain ⟨rfl, rfl⟩ := Stage.joined.inj heq
    rcases hb rfl with hne | rfl
    · exact hne rfl
    · exact h.running t ht
  | detach t c b ht =>
    have hput : (l.put t (.detached c)).Sound :=
      h.put (fun d hd => ht ▸ hd) (by simp) Stage.noConfusion
    refine ⟨hput.nodup, hput.lt_fresh, hput.le_high, ?_, hput.connection, hput.unique,
      hput.running, hput.removed, hput.closed⟩
    intro u hu
    have hut : u ≠ t := by
      rintro rfl
      simp [Life.put] at hu
    exact (mem_erase_of_ne hut).mpr (hput.owner u hu)
  | depart => exact h.put (by rintro c ⟨⟩) (by simp) Stage.noConfusion
  | remove t c x ht hx =>
    rcases hx with rfl | ⟨rfl, -⟩
    · exact h.remove ht rfl Stage.noConfusion fun _ _ => Stage.noConfusion
    · exact h.remove ht rfl Stage.noConfusion fun _ _ => Stage.noConfusion
  | finish t =>
    have hput : (l.put t .away).Sound := h.put (by rintro c ⟨⟩) (by simp) Stage.noConfusion
    have hregistered : (({ l with registered := false } : Life).put t .away).Sound :=
      ⟨hput.nodup, hput.lt_fresh, hput.le_high, hput.owner, hput.connection, hput.unique,
        hput.running, hput.removed, hput.closed⟩
    exact hregistered.mark (fun _ => Mark.noConfusion) fun _ => Mark.noConfusion
  | grow _ hfresh =>
    exact ⟨h.nodup, fun c hc => Nat.lt_of_lt_of_le (h.lt_fresh c hc) hfresh, h.le_high, h.owner,
      h.connection, h.unique, h.running, h.removed, h.closed⟩

end Sound

/-- A session that has just been registered. -/
structure New (l : Life) : Prop where
  incoming : l.incoming = []
  stage : ∀ t, l.stage t = .away
  registered : l.registered = true
  marks : l.marks = []

theorem New.sound (h : l.New) : l.Sound := by
  constructor <;> simp [h.incoming, h.stage, h.marks, Stage.connection]

theorem New.ends (h : l.New) : l.Ends := by
  constructor <;> simp [h.registered, h.stage, h.marks]

section Ends

variable {t c : ℕ} {x : Stage} {m : Mark}

/-- A thread that does not come to end the session moves on. -/
theorem Ends.put (h : l.Ends) (hx : x ≠ .ending) : (l.put t x).Ends := by
  have hending : ∀ u, (l.put t x).stage u = .ending → l.stage u = .ending := by
    intro u hu
    by_cases hut : u = t
    · rw [hut, put_stage_self] at hu
      exact absurd hu hx
    · rwa [put_stage_of_ne l x hut] at hu
  refine ⟨fun hover => h.empty (hover.imp_right ?_), h.ended, h.once, h.registered, ?_, ?_⟩
  · rintro ⟨u, hu⟩
    exact ⟨u, hending u hu⟩
  · exact fun u v hu hv => h.ending u v (hending u hu) (hending v hv)
  · exact fun u hu => h.pending u (hending u hu)

theorem ended_mem_mark (hm : ∀ r n, m ≠ .ended r n) {r : Bool} {n : ℕ} :
    .ended r n ∈ (l.mark m).marks ↔ .ended r n ∈ l.marks := by
  simp [Life.mark, (hm r n).symm]

theorem Ends.mark (h : l.Ends) (hm : ∀ r n, m ≠ .ended r n) : (l.mark m).Ends where
  empty := by
    simp only [ended_mem_mark hm]
    exact h.empty
  ended := by
    simp only [ended_mem_mark hm]
    exact h.ended
  once := by
    refine pairwise_append.mpr ⟨h.once, pairwise_singleton _ _, ?_⟩
    intro a _ b hb r n r' n' _
    rw [mem_singleton.mp hb]
    exact hm r' n'
  registered := by
    simp only [ended_mem_mark hm]
    exact h.registered
  ending := h.ending
  pending := h.pending

/-- While there are connections nobody ends the session. -/
theorem Ends.not_over (h : l.Ends) (hc : c ∈ l.incoming) :
    (∀ r n, .ended r n ∉ l.marks) ∧ ∀ t, l.stage t ≠ .ending := by
  have hover := mt h.empty fun hempty => by simp [hempty.1] at hc
  refine ⟨fun r n hmem => hover (.inl ⟨r, n, hmem⟩), fun t ht => hover (.inr ⟨t, ht⟩)⟩

theorem Ends.remove (h : l.Ends) (hs : l.Sound) (ht : l.stage t = .detached (some c))
    (hx : x = .away ∨ x = .ending ∧ l.incoming.erase c = []) :
    Ends (({ l with incoming := l.incoming.erase c }.put t x).mark (.removed c)) := by
  have hc : c ∈ l.incoming := hs.connection t c (by rw [ht]; rfl)
  obtain ⟨hended, hending⟩ := h.not_over hc
  have hhigh : 0 < l.high := Nat.lt_of_lt_of_le (length_pos_of_mem hc) hs.le_high
  -- only this thread can be the one that ends the session
  have hself : ∀ u, update l.stage t x u = .ending → u = t ∧ l.incoming.erase c = [] := by
    intro u hu
    by_cases hut : u = t
    · rw [hut, update_self] at hu
      rcases hx with rfl | ⟨-, hempty⟩
      · cases hu
      · exact ⟨hut, hempty⟩
    · rw [update_of_ne hut] at hu
      exact absurd hu (hending u)
  refine Ends.mark ⟨?_, h.ended, h.once, h.registered, ?_, ?_⟩ fun _ _ => Mark.noConfusion
  · rintro (⟨r, n, hmem⟩ | ⟨u, hu⟩)
    · exact absurd hmem (hended r n)
    · exact ⟨(hself u hu).2, hhigh⟩
  · exact fun u v hu hv => (hself u hu).1.trans (hself v hv).1.symm
  · exact fun _ _ => h.registered.mpr hended

theorem Ends.accept (h : l.Ends) (hhigh : l.high ≤ l.incoming.length) : Ends (({ l with
      incoming := l.incoming ++ [l.fresh]
      high := l.incoming.length + 1
      fresh := l.fresh + 1 }.put t (.joined (some l.fresh) false)).mark (.accepted l.fresh)) := by
  have hover : ¬ ((∃ r n, .ended r n ∈ l.marks) ∨ ∃ t, l.stage t = .ending) := by
    intro hover
    obtain ⟨hempty, hpos⟩ := h.empty hover
    simp [hempty] at hhigh
    omega
  have hgrown : Ends { l with
      incoming := l.incoming ++ [l.fresh]
      high := l.incoming.length + 1
      fresh := l.fresh + 1 } :=
    ⟨fun h' => absurd h' hover, h.ended, h.once, h.registered, h.ending, h.pending⟩
  exact (hgrown.put Stage.noConfusion).mark fun _ _ => Mark.noConfusion

theorem Ends.finish (h : l.Ends) (ht : l.stage t = .ending) :
    Ends (({ l with registered := false }.put t .away).mark (.ended l.registered l.incoming.length)) := by
  have hregistered := h.pending t ht
  have hnone := h.registered.mp hregistered
  obtain ⟨hempty, hhigh⟩ := h.empty (.inr ⟨t, ht⟩)
  have hgone : ∀ u, update l.stage t .away u ≠ .ending := by
    intro u hu
    by_cases hut : u = t
    · rw [hut, update_self] at hu
      cases hu
    · rw [update_of_ne hut] at hu
      exact hut (h.ending u t hu ht)
  refine ⟨fun _ => ⟨hempty, hhigh⟩, ?_, ?_, ?_, ?_, ?_⟩
  · intro r n hmem
    rcases mem_append.mp hmem with hmem | hmem
    · exact absurd hmem (hnone r n)
    · obtain ⟨rfl, rfl⟩ := Mark.ended.inj (mem_singleton.mp hmem)
      exact ⟨hregistered, by rw [hempty, length_nil]⟩
  · refine pairwise_append.mpr ⟨h.once, pairwise_singleton _ _, ?_⟩
    rintro a ha b - r n r' n' rfl
    exact absurd ha (hnone r n)
  · constructor
    · intro h'
      cases h'
    · intro h'
      exact absurd (mem_append_right _ (mem_singleton_self _))
        (h' l.registered l.incoming.length)
  · exact fun u v hu => absurd hu (hgone u)
  · exact fun u hu => absurd hu (hgone u)

theorem Ends.step (h : l.Ends) (hs : l.Sound) (hstep : Step l l') : l'.Ends := by
  cases hstep with
  | own => exact Ends.put ⟨h.empty, h.ended, h.once, h.registered, h.ending, h.pending⟩ Stage.noConfusion
  | refuse => exact h.put Stage.noConfusion
  | accept _ _ hhigh => exact h.accept hhigh
  | progress => exact h.put Stage.noConfusion
  | detach =>
    exact Ends.put ⟨h.empty, h.ended, h.once, h.registered, h.ending, h.pending⟩ Stage.noConfusion
  | depart => exact h.put Stage.noConfusion
  | remove t c x ht hx => exact h.remove hs ht hx
  | finish t ht => exact h.finish ht
  | grow => exact ⟨h.empty, h.ended, h.once, h.registered, h.ending, h.pending⟩

end Ends

end Life

end Binder.RpcServer
