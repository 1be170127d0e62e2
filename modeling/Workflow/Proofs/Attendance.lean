import Workflow.Proofs.Cancellation

/- Runs that are attended to. Acts follow each other without an end, and time is the number of those
   done. A run is attended to if every handler that it calls answers at some time, no pause is
   left as it is, and somebody makes a move that it can make over and over (`Attended`). Each
   move then begins a step or is one of those left (`Run.move_gains`), so an attended run that
   begins only so many steps comes to its end (`Attended.over`). -/
namespace Workflow

namespace Run

/-! ## Moves -/

theorem movesLeft_congr {run run' : Run} (h : run'.phase = run.phase) :
    run'.movesLeft = run.movesLeft := by
  unfold movesLeft
  rw [h]

theorem isOver_congr {run run' : Run} (h : run'.phase = run.phase) : run'.isOver = run.isOver := by
  unfold isOver
  rw [h]

/-- Whatever a run does by itself begins a step or is one of the moves left to it. -/
theorem Advance.gains {around : Surroundings} {run run' : Run} {signal : Signal}
    (h : Advance around run run' signal) :
    signal.startsStep = true ∨ run'.movesLeft < run.movesLeft := by
  cases h with
  | control | dispatch => exact .inl rfl
  | success hp _ | cancelled hp _ _ | refused hp _ _ _ | ending hp =>
    exact .inr (by simp [movesLeft, hp])
  | invoke hp hcommands => exact .inr (less_of_invoke hp hcommands)
  | served hp => exact .inr (less_of_served hp)
  | close hp => exact .inr (less_of_close hp)

theorem answer_idle {run : Run} (h : ∀ i intent left, run.phase ≠ .awaiting i intent left)
    (outcome : Outcome) : run.answer outcome = run := by
  unfold answer
  split
  · rename_i hp
    exact absurd hp (h _ _ _)
  · rfl

/-- A move leaves a run where it is, or begins a step, or is one of those left. -/
theorem move_gains (run : Run) (m : Move) :
    (run.move m).1.phase = run.phase ∨ 0 < (run.move m).2.countP Signal.startsStep ∨
      (run.move m).1.movesLeft < run.movesLeft := by
  cases m with
  | advance around =>
    cases hnext : run.advance? around with
    | none => exact .inl (by simp [move, hnext])
    | some next =>
      obtain ⟨run', signal⟩ := next
      simp only [move, hnext]
      refine .inr ((advance_of_advance? hnext).gains.imp_left fun hstart => ?_)
      simp [hstart]
  | answer outcome =>
    by_cases hwaits : ∃ i intent left, run.phase = .awaiting i intent left
    · obtain ⟨i, intent, left, hp⟩ := hwaits
      exact .inr (.inr (movesLeft_answer hp outcome))
    · left
      have hidle := answer_idle (fun i intent left hp => hwaits ⟨i, intent, left, hp⟩) outcome
      rw [move, hidle]
  | act action =>
    left
    simp only [move]
    cases run.state.act? action <;> rfl

end Run

namespace Runner

/-! ## Time -/

/-- The acts done by a time. -/
def doneBy (acts : Nat → Act) (time : Nat) : List Act := (List.range time).map acts

/-- The runner at a time. -/
def atTime (r : Runner) (acts : Nat → Act) (time : Nat) : Runner := (r.course (doneBy acts time)).1

/-- How many steps of a run have begun by a time. -/
def begunBy (r : Runner) (id : String) (acts : Nat → Act) (time : Nat) : Nat :=
  (seen id (r.course (doneBy acts time)).2).countP Signal.startsStep

/-- How many moves are left to a run at a time if it begins no step any more. -/
def leftAt (r : Runner) (id : String) (acts : Nat → Act) (time : Nat) : ℕ∞ :=
  ((Table.get? (r.atTime acts time).runs id).map Run.movesLeft).getD 0

/-- Whether a run is attended to: every handler that it calls answers, it is not held back for ever,
and of the moves that it can make over and over one is made. -/
structure Attended (r : Runner) (id : String) (acts : Nat → Act) : Prop where
  returns : ∀ time run i intent left, Table.get? (r.atTime acts time).runs id = some run →
    run.phase = .awaiting i intent left →
    ∃ later outcome, time ≤ later ∧ acts later = .answer id outcome
  released : ∀ time run, Table.get? (r.atTime acts time).runs id = some run → run.isHeld = true →
    ∃ later run', time ≤ later ∧ Table.get? (r.atTime acts later).runs id = some run' ∧
      run'.isHeld = false
  served : ∀ time,
    (∀ later, time ≤ later → ∃ moment, later ≤ moment ∧
      ((r.atTime acts moment).advance? id "").isSome = true) →
    ∃ moment trace, time ≤ moment ∧ acts moment = .advance id trace ∧
      ((r.atTime acts moment).advance? id trace).isSome = true

section Time

variable {r : Runner} {id : String} {acts : Nat → Act} {run : Run} {time : Nat}

theorem doneBy_succ (acts : Nat → Act) (time : Nat) :
    doneBy acts (time + 1) = doneBy acts time ++ [acts time] := by
  simp [doneBy, List.range_succ]

theorem atTime_succ (r : Runner) (acts : Nat → Act) (time : Nat) :
    r.atTime acts (time + 1) = ((r.atTime acts time).perform (acts time)).1 := by
  simp only [atTime, doneBy_succ, course_append]
  rfl

theorem begunBy_succ (r : Runner) (id : String) (acts : Nat → Act) (time : Nat) :
    r.begunBy id acts (time + 1) = r.begunBy id acts time +
      (seen id ((r.atTime acts time).perform (acts time)).2).countP Signal.startsStep := by
  simp only [begunBy, atTime, doneBy_succ, course_append, seen_append, List.countP_append, course,
    List.append_nil]

theorem begunBy_mono (r : Runner) (id : String) (acts : Nat → Act) {time later : Nat}
    (h : time ≤ later) : r.begunBy id acts time ≤ r.begunBy id acts later := by
  induction h with
  | refl => exact Nat.le_refl _
  | step _ ih =>
    rw [begunBy_succ]
    omega

theorem leftAt_eq (h : Table.get? (r.atTime acts time).runs id = some run) :
    r.leftAt id acts time = run.movesLeft := by
  simp [leftAt, h]

theorem keyed_atTime (hk : r.Keyed) (acts : Nat → Act) (time : Nat) : (r.atTime acts time).Keyed :=
  keyed_course hk _

theorem known_atTime (hk : r.Keyed) (h : Table.get? r.runs id = some run) (acts : Nat → Act)
    (time : Nat) : ∃ run', Table.get? (r.atTime acts time).runs id = some run' :=
  ⟨_, (course_seen hk h (doneBy acts time)).1⟩

/-- What an act leaves of a run: it stays where it is, or begins a step, or makes one of the moves
left. -/
theorem perform_gains (hk : r.Keyed) (h : Table.get? r.runs id = some run) (a : Act) :
    ∃ run', Table.get? (r.perform a).1.runs id = some run' ∧
      (run'.phase = run.phase ∨ 0 < (seen id (r.perform a).2).countP Signal.startsStep ∨
        run'.movesLeft < run.movesLeft) := by
  obtain ⟨hrun, hseen⟩ := perform_seen hk h a
  rw [hseen]
  refine ⟨_, hrun, ?_⟩
  cases r.moveOf? id a with
  | none => exact .inl rfl
  | some m =>
    rw [Option.toList_some, Run.course_singleton]
    exact run.move_gains m

/-! ## The end of an attended run -/

/-- Whether a run is further on at a later time: it has begun another step, or has fewer moves left
in the step that it was in. -/
def Ahead (r : Runner) (id : String) (acts : Nat → Act) (time later : Nat) : Prop :=
  r.begunBy id acts time < r.begunBy id acts later ∨
    r.begunBy id acts time ≤ r.begunBy id acts later ∧
      r.leftAt id acts later < r.leftAt id acts time

/-- A run that does not get ahead stays where it is. -/
theorem still_of_not_ahead (hk : r.Keyed)
    (h : Table.get? (r.atTime acts time).runs id = some run)
    (hnone : ∀ later, ¬ Ahead r id acts time later) {later : Nat} (hle : time ≤ later) :
    ∃ run', Table.get? (r.atTime acts later).runs id = some run' ∧ run'.phase = run.phase := by
  induction hle with
  | refl => exact ⟨run, h, rfl⟩
  | @step moment hle ih =>
    obtain ⟨run', hrun', hphase⟩ := ih
    obtain ⟨next, hnext, hgains⟩ := perform_gains (keyed_atTime hk acts moment) hrun' (acts moment)
    rw [← atTime_succ] at hnext
    have hmono := begunBy_mono r id acts hle
    have hsucc := begunBy_succ r id acts moment
    rcases hgains with hstill | hbegins | hless
    · exact ⟨next, hnext, hstill.trans hphase⟩
    · exact absurd (.inl (by omega)) (hnone (moment + 1))
    · refine absurd (.inr ⟨by omega, ?_⟩) (hnone (moment + 1))
      rw [leftAt_eq h, leftAt_eq hnext, ← Run.movesLeft_congr hphase]
      exact hless

/-- An attended run that is not over gets ahead. -/
theorem Attended.gets_ahead (hat : Attended r id acts) (hk : r.Keyed)
    (h : Table.get? (r.atTime acts time).runs id = some run) (hopen : run.isOver = false) :
    ∃ later, Ahead r id acts time later := by
  refine Classical.byContradiction fun hno => ?_
  have hnone : ∀ later, ¬ Ahead r id acts time later := fun later hahead => hno ⟨later, hahead⟩
  have hstill := fun {later : Nat} (hle : time ≤ later) => still_of_not_ahead hk h hnone hle
  -- what changes the number of moves left cannot happen
  have hlevel : ∀ {moment : Nat} {run' next : Run}, time ≤ moment →
      Table.get? (r.atTime acts moment).runs id = some run' →
      Table.get? ((r.atTime acts moment).perform (acts moment)).1.runs id = some next →
      ¬ next.movesLeft < run'.movesLeft := by
    intro moment run' next hle hrun' hnext hless
    obtain ⟨before, hbefore, hphase⟩ := hstill hle
    obtain ⟨after, hafter, hphase'⟩ := hstill (Nat.le_succ_of_le hle)
    rw [atTime_succ] at hafter
    cases hrun'.symm.trans hbefore
    cases hnext.symm.trans hafter
    rw [Run.movesLeft_congr hphase, Run.movesLeft_congr hphase'] at hless
    exact lt_irrefl _ hless
  by_cases hwaits : ∃ i intent left, run.phase = .awaiting i intent left
  · obtain ⟨i, intent, left, hp⟩ := hwaits
    obtain ⟨moment, outcome, hle, hact⟩ := hat.returns time run i intent left h hp
    obtain ⟨run', hrun', hphase⟩ := hstill hle
    have hnext : Table.get? ((r.atTime acts moment).perform (acts moment)).1.runs id =
        some (run'.answer outcome) := by
      simp [hact, perform, answer, hrun', Table.get?_insert]
    exact hlevel hle hrun' hnext (Run.movesLeft_answer (hphase.trans hp) outcome)
  · have hmovable : ∀ later, time ≤ later → ∃ moment, later ≤ moment ∧
        ((r.atTime acts moment).advance? id "").isSome = true := by
      intro later hle
      have hfree : ∃ moment run', later ≤ moment ∧
          Table.get? (r.atTime acts moment).runs id = some run' ∧ run'.isHeld = false := by
        obtain ⟨run', hrun', -⟩ := hstill hle
        cases hheld : run'.isHeld with
        | false => exact ⟨later, run', Nat.le_refl _, hrun', hheld⟩
        | true => exact hat.released later run' hrun' hheld
      obtain ⟨moment, run', hle', hrun', hheld⟩ := hfree
      obtain ⟨same, hsame, hphase⟩ := hstill (Nat.le_trans hle hle')
      cases hrun'.symm.trans hsame
      refine ⟨moment, hle', (advance?_isSome_iff hrun').mpr ⟨hheld, fun i intent left hp => ?_, ?_⟩⟩
      · exact hwaits ⟨i, intent, left, hphase.symm.trans hp⟩
      · rw [Run.isOver_congr hphase, hopen]
    obtain ⟨moment, trace, hle, hact, hsome⟩ := hat.served time hmovable
    obtain ⟨run', hrun', -⟩ := hstill hle
    obtain ⟨⟨r', signal⟩, hadvance⟩ := Option.isSome_iff_exists.mp hsome
    obtain ⟨next, hmove, hnext⟩ := advance?_run hrun' hadvance
    have hperform : (r.atTime acts moment).perform (acts moment) = (r', [signal]) := by
      simp [hact, perform, hadvance]
    rcases hmove.gains with hstart | hless
    · -- the step that begins is one more
      have hid : signal.runId = id := hmove.id.2.trans (keyed_atTime hk acts moment id run' hrun')
      have hmono := begunBy_mono r id acts hle
      have hsucc := begunBy_succ r id acts moment
      rw [hperform, seen_all (by simpa using hid)] at hsucc
      simp only [List.countP_singleton, hstart, if_true] at hsucc
      exact hnone (moment + 1) (.inl (by omega))
    · exact hlevel hle hrun' (by rw [hperform]; exact hnext) hless

/-- An attended run that begins only so many steps comes to its end. -/
theorem Attended.over (hat : Attended r id acts) (hk : r.Keyed)
    (h : Table.get? r.runs id = some run) {bound : Nat}
    (hbound : ∀ time, r.begunBy id acts time ≤ bound) (time : Nat) :
    ∃ later run', Table.get? (r.atTime acts later).runs id = some run' ∧ run'.isOver = true := by
  obtain ⟨now, hnow⟩ := known_atTime hk h acts time
  cases hover : now.isOver with
  | true => exact ⟨time, now, hnow, hover⟩
  | false =>
    obtain ⟨later, hahead⟩ := hat.gets_ahead hk hnow hover
    exact hat.over hk h hbound later
termination_by (bound - r.begunBy id acts time, r.leftAt id acts time)
decreasing_by
  have hlater := hbound later
  rw [Prod.lex_def]
  dsimp only
  rcases hahead with hbegun | ⟨hbegun, hless⟩
  · left
    omega
  · rcases Nat.eq_or_lt_of_le hbegun with hsame | hmore
    · exact .inr ⟨by rw [hsame], hless⟩
    · left
      omega

/-! ## A schedule that attends to a run -/

/-- The acts of somebody who in turn has a run go on and answers what it waits for. -/
def inTurn (id : String) (outcomes : Nat → Outcome) (time : Nat) : Act :=
  if time % 2 = 0 then .advance id "" else .answer id (outcomes time)

theorem inTurn_even (id : String) (outcomes : Nat → Outcome) {time : Nat} (h : time % 2 = 0) :
    inTurn id outcomes time = .advance id "" := if_pos h

theorem inTurn_odd (id : String) (outcomes : Nat → Outcome) {time : Nat} (h : time % 2 ≠ 0) :
    inTurn id outcomes time = .answer id (outcomes time) := if_neg h

/-- Such acts pause nothing. -/
theorem unpaused_inTurn (h : Table.get? r.runs id = some run) (hfree : run.state.paused = false)
    (outcomes : Nat → Outcome) (time : Nat) :
    ∃ run', Table.get? (r.atTime (inTurn id outcomes) time).runs id = some run' ∧
      run'.state.paused = false := by
  induction time with
  | zero => exact ⟨run, h, hfree⟩
  | succ time ih =>
    obtain ⟨run', hrun', hfree'⟩ := ih
    rw [atTime_succ]
    by_cases heven : time % 2 = 0
    · rw [inTurn_even id outcomes heven]
      cases hadvance : (r.atTime (inTurn id outcomes) time).advance? id "" with
      | none => exact ⟨run', by simpa [perform, hadvance] using hrun', hfree'⟩
      | some next =>
        obtain ⟨r', signal⟩ := next
        obtain ⟨moved, hmove, hmoved⟩ := advance?_run hrun' hadvance
        exact ⟨moved, by simpa [perform, hadvance] using hmoved, by rw [hmove.state, hfree']⟩
    · rw [inTurn_odd id outcomes heven]
      refine ⟨run'.answer (outcomes time), by simp [perform, answer, hrun', Table.get?_insert], ?_⟩
      rw [(run'.answered (outcomes time)).frame.2.2.1, hfree']

theorem attended_inTurn (h : Table.get? r.runs id = some run)
    (hfree : run.state.paused = false) (outcomes : Nat → Outcome) :
    Attended r id (inTurn id outcomes) where
  returns time _ _ _ _ _ _ := ⟨2 * time + 1, _, by omega, inTurn_odd id outcomes (by omega)⟩
  released time run' hrun' hheld := by
    obtain ⟨same, hsame, hpaused⟩ := unpaused_inTurn h hfree outcomes time
    cases hrun'.symm.trans hsame
    unfold Run.isHeld RunState.blocks at hheld
    split at hheld <;> simp [hpaused] at hheld
  served time hmovable := by
    obtain ⟨moment, hle, hsome⟩ := hmovable time (Nat.le_refl _)
    by_cases heven : moment % 2 = 0
    · exact ⟨moment, "", hle, inTurn_even id outcomes heven, hsome⟩
    · -- the run does not wait, so the answer leaves it as it is
      refine ⟨moment + 1, "", by omega, inTurn_even id outcomes (by omega), ?_⟩
      obtain ⟨run', hrun', -⟩ := unpaused_inTurn h hfree outcomes moment
      have hmoves := (advance?_isSome_iff hrun').mp hsome
      have hnext : Table.get? (r.atTime (inTurn id outcomes) (moment + 1)).runs id = some run' := by
        rw [atTime_succ, inTurn_odd id outcomes heven]
        simp [perform, answer, hrun', Table.get?_insert, Run.answer_idle hmoves.2.1]
      exact (advance?_isSome_iff hnext).mpr hmoves

end Time

end Runner

end Workflow
