import Workflow.Proofs.ManagerCourse

/- Refreshes that are asked for while others are under way. Two flags and the refresh
   under way make a machine of few states (`RefreshStage`), and every act of a manager
   is a step of it or leaves it alone (`stands_perform`). What has been asked for, begun
   and ended is therefore a word that the machine reads (`through_course`), and the rest
   is about such words: passes do not overlap, there are no more of them than requests,
   and behind a request there is a whole pass before the manager is idle again
   (`refreshes_settle`). -/
namespace Workflow

/-- What is told of the refreshes of a manager. -/
inductive RefreshMark where
  /-- A refresh is asked for. -/
  | asked
  /-- A pass over the documents begins. -/
  | begun
  /-- The pass has ended. -/
  | ended
  deriving DecidableEq, Repr

/-- How far the refreshes of a manager are. The flag tells whether one more pass is to follow. -/
inductive RefreshStage where
  | idle
  /-- In front of a pass. -/
  | due (again : Bool)
  /-- In a pass. -/
  | within (again : Bool)
  deriving DecidableEq, Repr

namespace RefreshStage

/-- The stage after a mark; none when the mark cannot be made there. -/
def after? : RefreshStage → RefreshMark → Option RefreshStage
  | .idle, .asked => some (.due false)
  | .due _, .asked => some (.due true)
  | .within _, .asked => some (.within true)
  | .due again, .begun => some (.within again)
  | .within true, .ended => some (.due false)
  | .within false, .ended => some .idle
  | _, _ => none

/-- The stage after marks; none when they cannot be made one after the other. -/
def through? (s : RefreshStage) : List RefreshMark → Option RefreshStage
  | [] => some s
  | k :: rest => (s.after? k).bind (through? · rest)

theorem through?_cons {s t : RefreshStage} {k : RefreshMark} {rest : List RefreshMark} :
    s.through? (k :: rest) = some t ↔ ∃ u, s.after? k = some u ∧ u.through? rest = some t :=
  Option.bind_eq_some_iff

theorem through?_append {s t : RefreshStage} {first later : List RefreshMark} :
    s.through? (first ++ later) = some t ↔
      ∃ u, s.through? first = some u ∧ u.through? later = some t := by
  induction first generalizing s with
  | nil => simp [through?]
  | cons k rest ih =>
    simp only [List.cons_append, through?_cons, ih]
    constructor
    · rintro ⟨v, hv, u, hu, ht⟩
      exact ⟨u, ⟨v, hv, hu⟩, ht⟩
    · rintro ⟨u, ⟨v, hv, hu⟩, ht⟩
      exact ⟨v, hv, u, hu, ht⟩

/-- How many passes are under way. -/
def passing : RefreshStage → Nat
  | .within _ => 1
  | _ => 0

/-- How many passes are still to begin. -/
def owed : RefreshStage → Nat
  | .idle => 0
  | .due again => 1 + again.toNat
  | .within again => again.toNat

theorem count_after? {s t : RefreshStage} {k : RefreshMark} (h : s.after? k = some t) :
    [k].count .begun + s.passing = [k].count .ended + t.passing ∧
      [k].count .begun + t.owed ≤ [k].count .asked + s.owed := by
  cases s with
  | idle => cases k <;> cases h; decide
  | due again => cases again <;> cases k <;> cases h <;> decide
  | within again => cases again <;> cases k <;> cases h <;> decide

/-- Every pass that has begun has ended or is under way, and was asked for. -/
theorem count_through? {s t : RefreshStage} {marks : List RefreshMark}
    (h : s.through? marks = some t) :
    marks.count .begun + s.passing = marks.count .ended + t.passing ∧
      marks.count .begun + t.owed ≤ marks.count .asked + s.owed := by
  induction marks generalizing s with
  | nil =>
    cases h
    exact ⟨rfl, Nat.le_refl _⟩
  | cons k rest ih =>
    obtain ⟨u, hu, hrest⟩ := through?_cons.mp h
    have hone := count_after? hu
    have hmore := ih hrest
    have hsplit : ∀ x : RefreshMark, (k :: rest).count x = [k].count x + rest.count x := by
      intro x
      rw [← List.count_append, List.singleton_append]
    simp only [hsplit]
    omega

/-- A pass that is under way ends before another one begins. -/
theorem ended_of_within {again : Bool} {t : RefreshStage} {marks : List RefreshMark}
    (h : (within again).through? marks = some t) (ht : ∀ b, t ≠ .within b) :
    ∃ during later, marks = during ++ .ended :: later ∧ ∀ k ∈ during, k = .asked := by
  induction marks generalizing again with
  | nil =>
    cases h
    exact absurd rfl (ht again)
  | cons k rest ih =>
    obtain ⟨u, hu, hrest⟩ := through?_cons.mp h
    cases k with
    | asked =>
      cases hu
      obtain ⟨during, later, rfl, hall⟩ := ih hrest
      exact ⟨.asked :: during, later, rfl, by simpa using hall⟩
    | begun => cases hu
    | ended => exact ⟨[], rest, rfl, by simp⟩

/-- Between the beginnings of two passes there is the end of the first. -/
theorem ended_between {s t : RefreshStage} {first during later : List RefreshMark}
    (h : s.through? (first ++ .begun :: during ++ .begun :: later) = some t) :
    .ended ∈ during := by
  obtain ⟨u, hu, hlater⟩ := through?_append.mp h
  obtain ⟨v, -, hpass⟩ := through?_append.mp hu
  obtain ⟨w, hw, hduring⟩ := through?_cons.mp hpass
  obtain ⟨x, hx, -⟩ := through?_cons.mp hlater
  cases v with
  | idle | within => cases hw
  | due again =>
    cases hw
    have hfree : ∀ b, u ≠ .within b := by
      rintro b rfl
      cases hx
    obtain ⟨before, after, rfl, -⟩ := ended_of_within hduring hfree
    simp

/-- A stage with a pass to come gets to idle only through a whole pass. -/
theorem pass_of_owed {s : RefreshStage} {marks : List RefreshMark} (hs : 0 < s.owed)
    (h : s.through? marks = some .idle) :
    ∃ first during later, marks = first ++ .begun :: during ++ .ended :: later ∧
      ∀ k ∈ during, k = .asked := by
  induction marks generalizing s with
  | nil =>
    cases h
    cases hs
  | cons k rest ih =>
    obtain ⟨u, hu, hrest⟩ := through?_cons.mp h
    by_cases hbegun : k = .begun
    · subst hbegun
      cases s with
      | due again =>
        cases hu
        obtain ⟨during, later, rfl, hall⟩ := ended_of_within hrest (by simp)
        exact ⟨[], during, later, rfl, hall⟩
      | idle | within => cases hu
    · have howed : 0 < u.owed := by
        cases s with
        | idle => cases hs
        | due again => cases k <;> cases hu <;> first | exact absurd rfl hbegun | decide
        | within again =>
          cases again with
          | false => cases hs
          | true => cases k <;> cases hu <;> decide
      obtain ⟨first, during, later, rfl, hall⟩ := ih howed hrest
      exact ⟨k :: first, during, later, rfl, hall⟩

/-- However many requests come in during a pass, they make for one more pass. -/
theorem through?_requests (again : Bool) (n : Nat) :
    (within again).through? (List.replicate n .asked ++ [.ended]) =
      some (if n = 0 ∧ again = false then .idle else .due false) := by
  induction n generalizing again with
  | zero => cases again <;> rfl
  | succ n ih =>
    have := ih true
    simpa [List.replicate_succ, through?, after?] using this

/-- When nothing more is asked for, an idle manager stays idle. -/
theorem unasked_idle {t : RefreshStage} {marks : List RefreshMark}
    (h : idle.through? marks = some t) (hn : .asked ∉ marks) : marks = [] := by
  cases marks with
  | nil => rfl
  | cons k rest =>
    obtain ⟨u, hu, -⟩ := through?_cons.mp h
    cases k with
    | asked => simp at hn
    | begun | ended => cases hu

/-- When nothing more is asked for, a pass that is due is the last one. -/
theorem unasked_due {marks : List RefreshMark} (h : (due false).through? marks = some .idle)
    (hn : .asked ∉ marks) : marks = [.begun, .ended] := by
  cases marks with
  | nil => cases h
  | cons k rest =>
    obtain ⟨u, hu, hrest⟩ := through?_cons.mp h
    cases k with
    | asked => simp at hn
    | ended => cases hu
    | begun =>
      cases hu
      obtain ⟨during, later, rfl, hall⟩ := ended_of_within hrest (by simp)
      -- nobody asks during the pass, so nothing is told before its end
      have hduring : during = [] := by
        refine List.eq_nil_iff_forall_not_mem.mpr fun k hk => hn ?_
        rw [← hall k hk]
        simp [hk]
      subst hduring
      obtain ⟨v, hv, hlater⟩ := through?_cons.mp hrest
      cases hv
      rw [unasked_idle hlater (by simpa using hn)]
      rfl

end RefreshStage

namespace Manager

/-- What an act is to the refreshes of a manager. -/
def mark? (m : Manager) : Act → Option RefreshMark
  | .start | .refresh => some .asked
  | .proceed _ _ _ place =>
    match m.passes[place]? with
    | some .ready => some .begun
    | some .passed => some .ended
    | _ => none
  | _ => none

/-- What acts are to the refreshes of a manager. -/
def marks (m : Manager) : List Act → List RefreshMark
  | [] => []
  | a :: rest => (m.mark? a).toList ++ (m.perform a).1.marks rest

/-- Whether the refreshes of a manager are at a stage: never more than one is under way, and the
flags tell that and whether one more pass is to follow. -/
def Stands (m : Manager) : RefreshStage → Prop
  | .idle => m.passes = [] ∧ m.refreshing = false ∧ m.pending = false
  | .due again => m.passes = [.ready] ∧ m.refreshing = true ∧ m.pending = again
  | .within again =>
    ∃ p, p ≠ .ready ∧ m.passes = [p] ∧ m.refreshing = true ∧ m.pending = again

theorem Stands.under_way {m : Manager} {s : RefreshStage} (h : m.Stands s) :
    s = .idle ∧ m.passes = [] ∨ ∃ p, m.passes = [p] := by
  cases s with
  | idle => exact .inl ⟨rfl, h.1⟩
  | due again => exact .inr ⟨.ready, h.1⟩
  | within again =>
    obtain ⟨p, -, hp, -, -⟩ := h
    exact .inr ⟨p, hp⟩

theorem stands_requestRefresh {m : Manager} {s : RefreshStage} (h : m.Stands s) :
    ∃ t, m.requestRefresh.Stands t ∧ s.after? .asked = some t := by
  unfold requestRefresh
  cases s with
  | idle =>
    obtain ⟨hp, hr, hq⟩ := h
    exact ⟨.due false, by simp [hr, hp, Stands, hq], rfl⟩
  | due again =>
    obtain ⟨hp, hr, hq⟩ := h
    exact ⟨.due true, by simp [hr, hp, Stands], rfl⟩
  | within again =>
    obtain ⟨p, hn, hp, hr, hq⟩ := h
    exact ⟨.within true, by simp [hr, hp, Stands, hn], rfl⟩

/-- Nothing is done for a place that no refresh has. -/
theorem proceedAt_absent {m : Manager} {place : Nat} (h : m.passes[place]? = none) (now : Nat)
    (tree : FileTree) (bindable : Bool) : m.proceedAt now tree bindable place = m := by
  simp [proceedAt, h]

theorem proceed_passes (m : Manager) (now : Nat) (tree : FileTree) (bindable : Bool)
    (p : RefreshPass) : (m.proceed now tree bindable p).1.passes = m.passes := by
  cases p with
  | ready =>
    have hframe := congrArg passes (m.pass_frame now tree)
    exact hframe
  | stopping port => cases port <;> rfl
  | binding port => cases bindable <;> rfl
  | passed =>
    unfold proceed endPass
    dsimp only
    split <;> rfl

/-- A move of the only refresh under way leaves at most that one. -/
theorem proceedAt_only {m : Manager} {p : RefreshPass} (h : m.passes = [p]) (now : Nat)
    (tree : FileTree) (bindable : Bool) :
    m.proceedAt now tree bindable 0 =
      { (m.proceed now tree bindable p).1 with
        passes := (m.proceed now tree bindable p).2.toList } := by
  have hkeeps := m.proceed_passes now tree bindable p
  rw [h] at hkeeps
  unfold proceedAt
  rw [h, List.getElem?_cons_zero]
  dsimp only
  rw [hkeeps]
  cases (m.proceed now tree bindable p).2 <;> rfl

theorem stands_pass {m : Manager} {again : Bool} (h : m.Stands (.due again)) (now : Nat)
    (tree : FileTree) (bindable : Bool) :
    (m.proceedAt now tree bindable 0).Stands (.within again) := by
  obtain ⟨hp, hr, hq⟩ := h
  rw [proceedAt_only hp]
  have hframe := m.pass_frame now tree
  refine ⟨(m.pass now tree).2, m.pass_next now tree, rfl, ?_, ?_⟩
  · exact (congrArg refreshing hframe).trans hr
  · exact (congrArg pending hframe).trans hq

/-- What a move within a pass can be: one that leads on in it, or its end. -/
theorem stands_within {m : Manager} {again : Bool} {p : RefreshPass} (hn : p ≠ .ready)
    (hp : m.passes = [p]) (hr : m.refreshing = true) (hq : m.pending = again) (now : Nat)
    (tree : FileTree) (bindable : Bool) :
    p ≠ .passed ∧ (m.proceedAt now tree bindable 0).Stands (.within again) ∨
      p = .passed ∧
        (m.proceedAt now tree bindable 0).Stands (if again then .due false else .idle) := by
  rw [proceedAt_only hp]
  cases p with
  | ready => exact absurd rfl hn
  | stopping port => cases port <;> exact .inl ⟨by simp, _, by simp, rfl, hr, hq⟩
  | binding port =>
    refine .inl ⟨by simp, .passed, by simp, rfl, ?_⟩
    cases bindable <;> exact ⟨hr, hq⟩
  | passed =>
    refine .inr ⟨rfl, ?_⟩
    unfold proceed endPass
    cases again with
    | true => simp [hq, hr, Stands]
    | false => simp [hq, Stands]

theorem stands_proceedAt {m : Manager} {s : RefreshStage} (h : m.Stands s) (now : Nat)
    (tree : FileTree) (bindable : Bool) (place : Nat) :
    ∃ t, (m.proceedAt now tree bindable place).Stands t ∧
      s.through? (m.mark? (.proceed now tree bindable place)).toList = some t := by
  cases hplace : m.passes[place]? with
  | none =>
    rw [proceedAt_absent hplace]
    exact ⟨s, h, by simp [mark?, hplace, RefreshStage.through?]⟩
  | some current =>
    -- at most one refresh is under way, so the place is the first
    cases s with
    | idle => simp [h.1] at hplace
    | due again =>
      obtain ⟨rfl, rfl⟩ : place = 0 ∧ current = .ready := by
        cases place <;> simp [h.1] at hplace
        exact ⟨rfl, hplace.symm⟩
      exact ⟨.within again, stands_pass h now tree bindable, by simp [mark?, hplace]; rfl⟩
    | within again =>
      obtain ⟨p, hn, hp, hr, hq⟩ := h
      obtain ⟨rfl, rfl⟩ : place = 0 ∧ current = p := by
        cases place <;> simp [hp] at hplace
        exact ⟨rfl, hplace.symm⟩
      rcases stands_within hn hp hr hq now tree bindable with ⟨hne, ht⟩ | ⟨rfl, ht⟩
      · refine ⟨_, ht, ?_⟩
        cases current <;> simp_all [mark?, RefreshStage.through?]
      · refine ⟨_, ht, ?_⟩
        cases again <;> simp [mark?, hplace] <;> rfl

/-- The daily business is nothing to the refreshes. -/
theorem mark?_daily {a : Act} (h : a.isDaily = true) (m : Manager) : m.mark? a = none := by
  cases a <;> first | rfl | cases h

/-- Every act is a step of the machine, or leaves it alone. -/
theorem stands_perform {m : Manager} {s : RefreshStage} (h : m.Stands s) (a : Act) :
    ∃ t, (m.perform a).1.Stands t ∧ s.through? (m.mark? a).toList = some t := by
  have hasked : ∀ m : Manager, m.Stands s →
      ∃ t, m.requestRefresh.Stands t ∧ s.through? [.asked] = some t := by
    intro m h
    obtain ⟨t, ht, hafter⟩ := stands_requestRefresh h
    exact ⟨t, ht, by simp [RefreshStage.through?, hafter]⟩
  by_cases hdaily : a.isDaily = true
  · obtain ⟨triggers, alarms, hframe⟩ := perform_frame hdaily m
    rw [mark?_daily hdaily, hframe]
    exact ⟨s, h, rfl⟩
  · cases a with
    | start => exact hasked { m with stopped := false } h
    | refresh => exact hasked m h
    | proceed now tree bindable place => exact stands_proceedAt h now tree bindable place
    | setPort | shutdown => exact ⟨s, h, rfl⟩
    | change | ring | fire | request => exact absurd rfl hdaily

/-- A course of acts takes the machine through its marks. -/
theorem through_course {m : Manager} {s : RefreshStage} (h : m.Stands s) (acts : List Act) :
    ∃ t, (m.course acts).1.Stands t ∧ s.through? (m.marks acts) = some t := by
  induction acts generalizing m s with
  | nil => exact ⟨s, h, rfl⟩
  | cons a rest ih =>
    obtain ⟨u, hu, hone⟩ := stands_perform h a
    obtain ⟨t, ht, hrest⟩ := ih hu
    exact ⟨t, ht, RefreshStage.through?_append.mpr ⟨u, hone, hrest⟩⟩

end Manager

/-! ## Refreshes come to an end -/

/-- How many moves a refresh has before its pass is accounted for. -/
def RefreshPass.movesLeft : RefreshPass → Nat
  | .ready => 4
  | .stopping (some _) => 3
  | .stopping none => 2
  | .binding _ => 2
  | .passed => 1

theorem RefreshPass.movesLeft_le {p : RefreshPass} (h : p ≠ .ready) : p.movesLeft ≤ 3 := by
  cases p with
  | ready => exact absurd rfl h
  | stopping port => cases port <;> simp [movesLeft]
  | binding port => simp [movesLeft]
  | passed => simp [movesLeft]

theorem RefreshPass.movesLeft_pos (p : RefreshPass) : 0 < p.movesLeft := by
  cases p with
  | stopping port => cases port <;> simp [movesLeft]
  | ready | binding | passed => simp [movesLeft]

namespace Manager

/-- How many moves the refreshes of a manager have left, one more pass included if it is to
follow. -/
def refreshMovesLeft (m : Manager) : Nat :=
  m.passes.foldr (fun p n => p.movesLeft + n) 0 + if m.pending then 4 else 0

theorem refreshMovesLeft_le {m : Manager} {s : RefreshStage} (h : m.Stands s) :
    m.refreshMovesLeft ≤ 8 := by
  have hpending : (if m.pending then 4 else 0) ≤ 4 := by split <;> omega
  unfold refreshMovesLeft
  cases s with
  | idle => simp [h.1, h.2.2]
  | due again =>
    rw [h.1]
    simp only [List.foldr_cons, List.foldr_nil, RefreshPass.movesLeft]
    omega
  | within again =>
    obtain ⟨p, hn, hp, -, -⟩ := h
    have := RefreshPass.movesLeft_le hn
    rw [hp]
    simp only [List.foldr_cons, List.foldr_nil]
    omega

theorem movesLeft_proceed (m : Manager) {p : RefreshPass} (h : p ≠ .passed) (now : Nat)
    (tree : FileTree) (bindable : Bool) :
    ∃ next, (m.proceed now tree bindable p).2 = some next ∧ next.movesLeft < p.movesLeft ∧
      (m.proceed now tree bindable p).1.pending = m.pending := by
  cases p with
  | ready =>
    have hpending := congrArg pending (m.pass_frame now tree)
    exact ⟨_, rfl, Nat.lt_succ_of_le (RefreshPass.movesLeft_le (m.pass_next now tree)), hpending⟩
  | stopping port => cases port <;> exact ⟨_, rfl, Nat.lt_succ_self _, rfl⟩
  | binding port => cases bindable <;> exact ⟨_, rfl, Nat.lt_succ_self _, rfl⟩
  | passed => exact absurd rfl h

/-- A move of the refresh that is under way is one of those left. -/
theorem refreshMovesLeft_proceedAt {m : Manager} {p : RefreshPass} (h : m.passes = [p])
    (now : Nat) (tree : FileTree) (bindable : Bool) :
    (m.proceedAt now tree bindable 0).refreshMovesLeft < m.refreshMovesLeft := by
  rw [proceedAt_only h]
  unfold refreshMovesLeft
  rw [h]
  by_cases hp : p = .passed
  · subst hp
    cases hq : m.pending <;> simp [proceed, endPass, hq, RefreshPass.movesLeft]
  · obtain ⟨next, hnext, hless, hpending⟩ := m.movesLeft_proceed hp now tree bindable
    rw [hnext]
    simp only [Option.toList_some, List.foldr_cons, List.foldr_nil, hpending]
    omega

/-- The refreshes carried on for as many moves as they have left are over. -/
theorem stands_settleWithin {m : Manager} {s : RefreshStage} (h : m.Stands s) (now : Nat)
    (tree : FileTree) (bindable : Bool) {fuel : Nat} (hfuel : m.refreshMovesLeft ≤ fuel) :
    (settleWithin now tree bindable fuel m).Stands .idle := by
  induction fuel generalizing m s with
  | zero =>
    rcases h.under_way with ⟨rfl, -⟩ | ⟨p, hp⟩
    · exact h
    · have := p.movesLeft_pos
      simp only [refreshMovesLeft, hp, List.foldr_cons, List.foldr_nil] at hfuel
      omega
  | succ fuel ih =>
    unfold settleWithin
    rcases h.under_way with ⟨rfl, hp⟩ | ⟨p, hp⟩
    · rw [hp]
      exact h
    · obtain ⟨t, ht, -⟩ := stands_proceedAt h now tree bindable 0
      have hless := refreshMovesLeft_proceedAt hp now tree bindable
      rw [hp]
      exact ih ht (by omega)

theorem stands_settleRefresh {m : Manager} {s : RefreshStage} (h : m.Stands s) (now : Nat)
    (tree : FileTree) (bindable : Bool) : (m.settleRefresh now tree bindable).Stands .idle :=
  stands_settleWithin h now tree bindable (Nat.le_trans (refreshMovesLeft_le h) (by decide))

/-- A manager has no refresh under way when it is new. -/
theorem stands_new (settings : TriggerSettings) : (new settings).Stands .idle :=
  ⟨rfl, rfl, rfl⟩

theorem Stands.eq_idle {m : Manager} {s : RefreshStage} (h : m.Stands s)
    (hr : m.refreshing = false) : s = .idle := by
  cases s with
  | idle => rfl
  | due again => rw [h.2.1] at hr; cases hr
  | within again =>
    obtain ⟨p, -, -, hrefreshing, -⟩ := h
    rw [hrefreshing] at hr
    cases hr

theorem Stands.refreshing {m : Manager} {s : RefreshStage} (h : m.Stands s)
    (hp : m.passes ≠ []) : m.refreshing = true := by
  cases hr : m.refreshing with
  | true => rfl
  | false =>
    obtain rfl := h.eq_idle hr
    exact absurd h.1 hp

/-- What is known of a manager that has gone through a history of refreshes. -/
structure Settling (m : Manager) (history : List RefreshMark) : Prop where
  /-- Two refreshes are never under way. -/
  alone : m.passes.length ≤ 1
  /-- A pass has ended when the next one begins. -/
  apart : ∀ first during later,
    history = first ++ .begun :: during ++ .begun :: later → .ended ∈ during
  ended_le : history.count .ended ≤ history.count .begun
  begun_le : history.count .begun ≤ history.count .asked
  /-- When the manager is idle again, a whole pass lies behind every request. -/
  served : m.refreshing = false → ∀ before after, history = before ++ .asked :: after →
    ∃ first during later, after = first ++ .begun :: during ++ .ended :: later ∧
      ∀ k ∈ during, k = .asked
  flags : m.passes = [] → m.refreshing = false ∧ m.pending = false
  under_way : m.passes ≠ [] → m.refreshing = true
  /-- However many requests come in during a pass, there is exactly one more pass when it has
  ended, if nothing else is asked for. -/
  further : ∀ p, m.passes = [p] → p ≠ .ready → ∀ during rest n,
    m.marks during = List.replicate n .asked ++ [.ended] →
    .asked ∉ (m.course during).1.marks rest →
    ((m.course during).1.course rest).1.refreshing = false →
    (m.course during).1.marks rest =
      if n = 0 ∧ m.pending = false then [] else [.begun, .ended]
  /-- The refreshes carried on come to an end. -/
  settles : ∀ now tree bindable, (m.settleRefresh now tree bindable).refreshing = false

/-- **Refreshes.** Whatever is done with a manager, and in whatever order requests, moves of the
refresh under way and everything else come, its passes are made one at a time, none without a
request, and no request is lost. -/
theorem refreshes_settle (settings : TriggerSettings) (acts : List Act) :
    Settling ((new settings).course acts).1 ((new settings).marks acts) := by
  obtain ⟨s, hs, hthrough⟩ := through_course (stands_new settings) acts
  generalize ((new settings).course acts).1 = m at hs ⊢
  generalize (new settings).marks acts = history at hthrough ⊢
  obtain ⟨hbegun, hasked⟩ := RefreshStage.count_through? hthrough
  constructor
  case alone =>
    rcases hs.under_way with ⟨-, hp⟩ | ⟨p, hp⟩ <;> simp [hp]
  case apart =>
    rintro first during later rfl
    exact RefreshStage.ended_between hthrough
  case ended_le =>
    have hopen : RefreshStage.idle.passing = 0 := rfl
    omega
  case begun_le =>
    have howed : RefreshStage.idle.owed = 0 := rfl
    omega
  case served =>
    rintro hr before after rfl
    obtain rfl := hs.eq_idle hr
    obtain ⟨u, -, hafter⟩ := RefreshStage.through?_append.mp hthrough
    obtain ⟨v, hv, hrest⟩ := RefreshStage.through?_cons.mp hafter
    -- whatever the stage of the request, a pass is to come after it
    have howed : 0 < v.owed := by cases u <;> cases hv <;> decide
    exact RefreshStage.pass_of_owed howed hrest
  case flags =>
    intro hp
    rcases hs.under_way with ⟨rfl, -⟩ | ⟨p, hone⟩
    · exact hs.2
    · simp [hone] at hp
  case under_way => exact hs.refreshing
  case further =>
    intro p hp hn during rest n hduring hunasked hr
    have hwithin : m.Stands (.within m.pending) :=
      ⟨p, hn, hp, hs.refreshing (by simp [hp]), rfl⟩
    obtain ⟨u, hu, hend⟩ := through_course hwithin during
    rw [hduring, RefreshStage.through?_requests] at hend
    obtain ⟨v, hv, hrest⟩ := through_course hu rest
    obtain rfl := hv.eq_idle hr
    split at hend
    · rename_i hnone
      cases hend
      rw [if_pos hnone]
      exact RefreshStage.unasked_idle hrest hunasked
    · rename_i hsome
      cases hend
      rw [if_neg hsome]
      exact RefreshStage.unasked_due hrest hunasked
  case settles =>
    intro now tree bindable
    exact (stands_settleRefresh hs now tree bindable).2.1

/-- Settings under which no document declares a trigger. -/
def triggerless : TriggerSettings where
  workspaceRoot := "/w"
  triggerRoot := "/w/.flowline"
  enabled := false
  webhookHost := "127.0.0.1"
  webhookPort := 0
  secretHeader := "x-flowline-secret"
  maxChainDepth := 5
  defaults := {}
  refreshDebounce := 300

/-- One move of the refresh under way. -/
def oneMove : Act := .proceed 0 .empty true 0

/-- Two requests that come in during a pass make for one more pass, not two. -/
theorem two_requests_make_one_pass :
    ((new triggerless).marks [.refresh, oneMove, .refresh, .refresh, oneMove, oneMove, oneMove]) =
        [.asked, .begun, .asked, .asked, .ended, .begun, .ended] ∧
      ((new triggerless).course [.refresh, oneMove]).1.marks [.refresh, .refresh, oneMove] =
        List.replicate 2 .asked ++ [.ended] ∧
      (((new triggerless).course [.refresh, oneMove]).1.course [.refresh, .refresh, oneMove]).1.marks
        [oneMove, oneMove] = [.begun, .ended] := by
  refine ⟨rfl, rfl, ?_⟩
  have hsettling := refreshes_settle triggerless [.refresh, oneMove]
  exact hsettling.further .passed rfl (by simp) [.refresh, .refresh, oneMove] [oneMove, oneMove] 2
    rfl (by decide) rfl

end Manager

end Workflow
