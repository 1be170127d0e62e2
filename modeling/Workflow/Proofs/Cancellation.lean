import Mathlib.Data.ENat.Basic
import Workflow.Proofs.RunEvents

/- What the flags of a run do to it. A step begins only while the run is neither
   paused nor cancelled. A cancelled run makes at most `movesLeft` more moves, none of
   which begins a step, and is not held back by a pause; in front of a step it ends
   as cancelled (`cancelled_run_winds_up`). -/
namespace Workflow

/-- Whether a signal tells that a step begins. -/
def Signal.startsStep : Signal → Bool
  | .event ⟨_, .stepStart _ _ _⟩ => true
  | _ => false

/-- Whether a signal tells that a step ends. -/
def Signal.endsStep : Signal → Bool
  | .event ⟨_, .stepEnd _ _ _⟩ => true
  | _ => false

namespace Run

/-- Whether the run is in a step, which has been told to begin and not to end. -/
def isInStep (run : Run) : Bool :=
  match run.phase with
  | .dispatching _ _ _ | .awaiting _ _ _ | .closing _ _ => true
  | _ => false

/-- How many moves and answers a cancelled run can have at most before it is over. A command left
takes two of them; before the commands of a step are known no number bounds them. -/
def movesLeft (run : Run) : ℕ∞ :=
  match run.phase with
  | .head _ => (1 : Nat)
  | .dispatching _ _ none => ⊤
  | .dispatching _ _ (some left) => (2 * left.length + 2 : Nat)
  | .awaiting _ _ left => (2 * left.length + 3 : Nat)
  | .closing _ _ => (2 : Nat)
  | .ending _ => (1 : Nat)
  | .finished _ => (0 : Nat)

/-- What is known of a run's commands bounds its moves. -/
theorem movesLeft_of_dispatching {run : Run} {i : Nat} {intent : Intent}
    {known : Option (List Resolution)} (h : run.phase = .dispatching i intent known)
    (found : List Resolution) :
    ((2 * (known.getD found).length + 2 : Nat) : ℕ∞) ≤ run.movesLeft := by
  unfold movesLeft
  rw [h]
  cases known with
  | none => exact le_top
  | some left => exact le_refl _

/-- How many ends of steps are still to be told if no step begins. -/
def endsLeft (run : Run) : Nat := if run.isInStep then 1 else 0

/-- Behind a step a run is in front of another or in front of its end. -/
theorem next_cases (p : Pipeline) (i : Nat) (success : Bool) :
    (∃ j, next p i success = .head j) ∨ next p i success = .ending .failure := by
  unfold next
  split
  · exact .inl ⟨i + 1, rfl⟩
  · split
    · exact .inr rfl
    · split
      · exact .inl ⟨_, rfl⟩
      · exact .inr rfl

theorem movesLeft_next (run : Run) (count i : Nat) (success : Bool) :
    ({ run with executed := count, phase := next run.pipeline i success } : Run).movesLeft =
      (1 : Nat) := by
  rcases next_cases run.pipeline i success with ⟨j, h⟩ | h <;> simp [movesLeft, h]

theorem endsLeft_next (run : Run) (count i : Nat) (success : Bool) :
    ({ run with executed := count, phase := next run.pipeline i success } : Run).endsLeft = 0 := by
  rcases next_cases run.pipeline i success with ⟨j, h⟩ | h <;> simp [endsLeft, isInStep, h]

/-- A step begins only while nothing holds the run back. -/
theorem Moved.free {run : Run} {m : Move} {out : Run × List Signal} (h : Moved run m out)
    {s : Signal} (hs : s ∈ out.2) (hstart : s.startsStep = true) : run.state = {} := by
  cases h with
  | advance h =>
    rw [List.mem_singleton] at hs
    subst hs
    cases h with
    | control _ _ hf _ => exact hf
    | dispatch _ _ hf _ _ => exact hf
    | success | cancelled | refused | invoke | served | close | ending => cases hstart
  | answer h => cases hs
  | @act action state h =>
    cases action <;> simp [ControlAction.happening?, announce] at hs <;> subst hs <;> cases hstart
  | nothing => cases hs

/-! ## Cancelled runs -/

theorem Moved.stays_cancelled {run : Run} {m : Move} {out : Run × List Signal}
    (h : Moved run m out) (hc : run.state.cancelled = true) : out.1.state.cancelled = true := by
  cases h with
  | advance h => rw [h.state]; exact hc
  | answer h => rw [h.frame.2.2.1]; exact hc
  | @act action state h =>
    have := RunState.cancelled_act hc action
    rwa [RunState.act, h] at this
  | nothing => exact hc

theorem not_free {run : Run} (hc : run.state.cancelled = true) : run.state ≠ {} := by
  intro h
  rw [h] at hc
  cases hc

/-- A command that is invoked leaves fewer moves, also if it is the first one of those found. -/
theorem Advance.less_of_invoke {around : Surroundings} {run : Run} {i : Nat} {intent : Intent}
    {known : Option (List Resolution)} {r : Resolution} {left : List Resolution}
    (hp : run.phase = .dispatching i intent known)
    (hcommands : known.getD (around.resolve intent) = r :: left) :
    ({ run with phase := .awaiting i intent left } : Run).movesLeft < run.movesLeft := by
  refine lt_of_lt_of_le ?_ (movesLeft_of_dispatching hp (around.resolve intent))
  rw [hcommands, List.length_cons]
  exact Nat.cast_lt.mpr (by omega)

theorem Advance.less_of_served {run : Run} {i : Nat} {intent : Intent}
    {known : Option (List Resolution)} (hp : run.phase = .dispatching i intent known) :
    ({ run with executed := run.executed + 1, phase := next run.pipeline i true } :
      Run).movesLeft < run.movesLeft := by
  refine lt_of_lt_of_le ?_ (movesLeft_of_dispatching hp [])
  rw [movesLeft_next]
  exact Nat.cast_lt.mpr (by omega)

theorem Advance.less_of_close {run : Run} {i : Nat} {success : Bool}
    (hp : run.phase = .closing i success) :
    ({ run with executed := run.executed + 1, phase := next run.pipeline i success } :
      Run).movesLeft < run.movesLeft := by
  rw [movesLeft_next]
  simp only [movesLeft, hp]
  exact Nat.cast_lt.mpr (by omega)

/-- A move of a cancelled run is one of those left to it, and begins no step. -/
theorem Advance.winds_up {around : Surroundings} {run run' : Run} {signal : Signal}
    (h : Advance around run run' signal) (hc : run.state.cancelled = true) :
    run'.movesLeft < run.movesLeft ∧ signal.startsStep = false ∧
      [signal].countP Signal.endsStep + run'.endsLeft ≤ run.endsLeft := by
  cases h with
  | success hp _ => simp [movesLeft, endsLeft, isInStep, hp, announce, Signal.startsStep,
      Signal.endsStep, Happening.ended]
  | cancelled hp _ _ => simp [movesLeft, endsLeft, isInStep, hp, announce, Signal.startsStep,
      Signal.endsStep, Happening.ended]
  | refused _ _ hf _ => exact absurd hf (not_free hc)
  | control _ _ hf _ => exact absurd hf (not_free hc)
  | dispatch _ _ hf _ _ => exact absurd hf (not_free hc)
  | @invoke i intent known r left hp hcommands =>
    refine ⟨Advance.less_of_invoke hp hcommands, rfl, ?_⟩
    simp [endsLeft, isInStep, hp, Signal.endsStep]
  | @served i intent known hp hcommands =>
    refine ⟨Advance.less_of_served hp, rfl, ?_⟩
    · rw [endsLeft_next]
      simp [endsLeft, isInStep, hp, announce, Signal.endsStep]
  | @close i success hp =>
    refine ⟨Advance.less_of_close hp, rfl, ?_⟩
    · rw [endsLeft_next]
      simp [endsLeft, isInStep, hp, announce, Signal.endsStep]
  | ending hp => simp [movesLeft, endsLeft, isInStep, hp, announce, Signal.startsStep,
      Signal.endsStep, Happening.ended]

/-- An answer that a run waits for is one of those left to it. -/
theorem Answered.less {outcome : Outcome} {run run' : Run} (h : Answered outcome run run') {i : Nat}
    {intent : Intent} {left : List Resolution} (hp : run.phase = .awaiting i intent left) :
    run'.movesLeft < run.movesLeft := by
  cases h with
  | @granted i intent left hp _ =>
    cases left with
    | nil =>
      simp only [movesLeft, hp, List.isEmpty_nil, if_true]
      exact Nat.cast_lt.mpr (by omega)
    | cons r left =>
      simp only [movesLeft, hp, List.isEmpty_cons, Bool.false_eq_true, if_false]
      exact Nat.cast_lt.mpr (by omega)
  | @failed i intent left hp _ =>
    simp only [movesLeft, hp]
    exact Nat.cast_lt.mpr (by omega)
  | idle h => exact absurd hp (h _ _ _)

theorem Answered.winds_up {outcome : Outcome} {run run' : Run} (h : Answered outcome run run') :
    run'.movesLeft ≤ run.movesLeft ∧ run'.endsLeft ≤ run.endsLeft := by
  have hless : ∀ {i : Nat} {intent : Intent} {left : List Resolution},
      run.phase = .awaiting i intent left → run'.movesLeft < run.movesLeft := h.less
  cases h with
  | @granted i intent left hp _ =>
    refine ⟨le_of_lt (hless hp), ?_⟩
    cases left <;> simp [endsLeft, isInStep, hp]
  | failed hp _ => exact ⟨le_of_lt (hless hp), by simp [endsLeft, isInStep, hp]⟩
  | idle _ => exact ⟨le_refl _, Nat.le_refl _⟩

theorem movesLeft_answer {run : Run} {i : Nat} {intent : Intent} {left : List Resolution}
    (hp : run.phase = .awaiting i intent left) (outcome : Outcome) :
    (run.answer outcome).movesLeft < run.movesLeft :=
  (run.answered outcome).less hp

theorem movesLeft_eq_zero_iff (run : Run) : run.movesLeft = 0 ↔ run.isOver = true := by
  unfold movesLeft isOver
  cases run.phase with
  | dispatching i intent known => cases known <;> simp
  | head | awaiting | closing | ending | finished => simp

/-- What has been shown of a run since it was cancelled, and what is left to it. -/
structure Winding (left : ℕ∞) (ends : Nat) (run : Run) (shown : List Signal) : Prop where
  cancelled : run.state.cancelled = true
  moves : run.movesLeft ≤ left
  no_start : ∀ s ∈ shown, s.startsStep = false
  one_end : shown.countP Signal.endsStep + run.endsLeft ≤ ends

theorem Winding.move {left : ℕ∞} {ends : Nat} {run : Run} {shown : List Signal}
    (h : Winding left ends run shown) (m : Move) :
    Winding left ends (run.move m).1 (shown ++ (run.move m).2) := by
  have hm := run.moved m
  have hc := hm.stays_cancelled h.cancelled
  have hmoves := h.moves
  have hends := h.one_end
  generalize run.move m = out at hm hc ⊢
  cases hm with
  | @advance around run' signal ha =>
    obtain ⟨hless, hstart, hend⟩ := ha.winds_up h.cancelled
    refine ⟨hc, le_of_lt (lt_of_lt_of_le hless hmoves), ?_, ?_⟩
    · intro s hs
      rcases List.mem_append.mp hs with hs | hs
      · exact h.no_start s hs
      · rw [List.mem_singleton] at hs
        rw [hs]
        exact hstart
    · rw [List.countP_append]
      dsimp only at hend ⊢
      omega
  | answer ha =>
    -- an answer shows nothing
    obtain ⟨hless, hend⟩ := ha.winds_up
    refine ⟨hc, le_trans hless hmoves, by simpa using h.no_start, ?_⟩
    simp only [List.append_nil]
    omega
  | @act action state ha =>
    refine ⟨hc, h.moves, ?_, ?_⟩
    · intro s hs
      rcases List.mem_append.mp hs with hs | hs
      · exact h.no_start s hs
      · cases action <;> simp [ControlAction.happening?, announce] at hs <;> subst hs <;> rfl
    · have hn : (action.happening?.map run.announce).toList.countP Signal.endsStep = 0 := by
        cases action <;> rfl
      rw [List.countP_append, hn]
      exact h.one_end
  | nothing => simpa using h

theorem Winding.course {run : Run} (hc : run.state.cancelled = true) (moves : List Move) :
    Winding run.movesLeft run.endsLeft (run.course moves).1 (run.course moves).2 := by
  have start : Winding run.movesLeft run.endsLeft run [] :=
    ⟨hc, le_refl _, by simp, by simp⟩
  simpa using course_keeps (Winding run.movesLeft run.endsLeft) (fun _ _ m h => h.move m) start
    moves

/-- Whether a run is cancelled and in front of a step, or was so and has ended. -/
structure Barred (i : Nat) (run : Run) : Prop where
  cancelled : run.state.cancelled = true
  step : i < run.pipeline.steps.length
  place : run.phase = .head i ∨ run.phase = .finished (.ok .cancelled)

theorem Barred.advance {i : Nat} {around : Surroundings} {run run' : Run} {signal : Signal}
    (h : Barred i run) (ha : Advance around run run' signal) :
    run'.phase = .finished (.ok .cancelled) := by
  rcases h.place with hp | hp
  · cases ha with
    | success hq hpast =>
      rw [hp] at hq
      cases hq
      exact absurd h.step (Nat.not_lt.mpr hpast)
    | cancelled => rfl
    | refused _ _ hf _ => exact absurd hf (not_free h.cancelled)
    | control _ _ hf _ => exact absurd hf (not_free h.cancelled)
    | dispatch _ _ hf _ _ => exact absurd hf (not_free h.cancelled)
    | invoke hq | served hq | close hq | ending hq => rw [hp] at hq; cases hq
  · cases ha with
    | cancelled => rfl
    | success hq _ | refused hq _ _ _ | control hq _ _ _ | dispatch hq _ _ _ _ | invoke hq
      | served hq | close hq | ending hq => rw [hp] at hq; cases hq

theorem Barred.move {i : Nat} {run : Run} (h : Barred i run) (m : Move) :
    Barred i (run.move m).1 := by
  have hm := run.moved m
  have hc := hm.stays_cancelled h.cancelled
  have hpl := hm.frame.2.1
  have hi := h.step
  generalize run.move m = out at hm hc hpl ⊢
  refine ⟨hc, by rw [hpl]; exact hi, ?_⟩
  cases hm with
  | advance ha => exact .inr (h.advance ha)
  | answer ha =>
    cases ha with
    | granted hq _ | failed hq _ =>
      rcases h.place with hp | hp <;> rw [hp] at hq <;> cases hq
    | idle => exact h.place
  | act => exact h.place
  | nothing => exact h.place

theorem Barred.course {i : Nat} {run : Run} (h : Barred i run) (moves : List Move) :
    Barred i (run.course moves).1 :=
  course_invariant (Barred i) (fun _ m h => h.move m) h moves

end Run

namespace Runner

/-- What is known of a run that was cancelled as `atCancel`, when it is `run` and all this has been
shown of it since. -/
structure WindsUp (r : Runner) (id : String) (atCancel run : Run) (shown : List Signal) :
    Prop where
  known : Table.get? r.runs id = some run
  cancelled : run.state.cancelled = true
  no_start : ∀ s ∈ shown, s.startsStep = false
  /-- Only the step that had begun ends. -/
  one_end : shown.countP Signal.endsStep ≤ atCancel.endsLeft
  /-- A pause does not hold it back. -/
  goes_on : r.result? id = none → (∃ i intent left, run.phase = .awaiting i intent left) ∨
    ∀ trace, (r.advance? id trace).isSome = true
  moves : run.movesLeft ≤ atCancel.movesLeft
  over_iff : (r.result? id).isSome = true ↔ run.movesLeft = 0
  advance_less : ∀ trace r' s, r.advance? id trace = some (r', s) →
    ∃ run', Table.get? r'.runs id = some run' ∧ run'.movesLeft < run.movesLeft
  answer_less : ∀ outcome, (∃ i intent left, run.phase = .awaiting i intent left) →
    ∃ run', Table.get? (r.answer id outcome).runs id = some run' ∧ run'.movesLeft < run.movesLeft
  /-- In front of a step its next move is its end as cancelled, and it has no other end. -/
  at_step : ∀ i, run.phase = .head i → i < run.pipeline.steps.length →
    (∀ trace, (r.perform (.advance id trace)).1.result? id = some (.ok .cancelled)) ∧
    ∀ more, (r.course more).1.result? id = none ∨
      (r.course more).1.result? id = some (.ok .cancelled)

theorem result?_isSome_iff {r : Runner} {id : String} {run : Run}
    (h : Table.get? r.runs id = some run) : (r.result? id).isSome = true ↔ run.isOver = true := by
  unfold result? Run.isOver
  rw [h]
  cases hp : run.phase <;> simp [hp]

/-- A move of the runner for a run is one of the run. -/
theorem advance?_run {r r' : Runner} {id trace : String} {run : Run} {s : Signal}
    (h : Table.get? r.runs id = some run) (ha : r.advance? id trace = some (r', s)) :
    ∃ run', Run.Advance ⟨r.registry, r.mappings, trace⟩ run run' s ∧
      Table.get? r'.runs id = some run' := by
  cases hr : run.advance? ⟨r.registry, r.mappings, trace⟩ with
  | none => simp [advance?, h, hr] at ha
  | some next =>
    obtain ⟨run', signal⟩ := next
    simp only [advance?, h, hr, Option.bind_eq_bind, Option.bind_some, Option.some.injEq,
      Prod.mk.injEq] at ha
    obtain ⟨rfl, rfl⟩ := ha
    refine ⟨run', Run.advance_of_advance? hr, ?_⟩
    by_cases ho : run'.isOver = true <;> simp [ho, release, Table.get?_insert]

theorem perform_at_step {r : Runner} {id : String} {run : Run} {i : Nat} (hk : r.Keyed)
    (h : Table.get? r.runs id = some run) (hc : run.state.cancelled = true)
    (hp : run.phase = .head i) (hi : i < run.pipeline.steps.length) (trace : String) :
    (r.perform (.advance id trace)).1.result? id = some (.ok .cancelled) := by
  have hs : run.pipeline.steps[i]? = some run.pipeline.steps[i] := List.getElem?_eq_getElem hi
  have hm : r.moveOf? id (.advance id trace) = some (.advance ⟨r.registry, r.mappings, trace⟩) := by
    simp [moveOf?]
  obtain ⟨hrun, -⟩ := perform_seen hk h (.advance id trace)
  rw [hm, Option.toList_some, Run.course_singleton, Run.move,
    Run.advance?_of_advance (.cancelled hp hs hc)] at hrun
  exact (result?_eq_some_iff hrun _).mpr rfl

theorem windsUp_of_cancelled {r : Runner} {id : String} {run : Run} (hk : r.Keyed)
    (h : Table.get? r.runs id = some run) (hc : run.state.cancelled = true) (after : List Act) :
    ∃ run', WindsUp (r.course after).1 id run run' (seen id (r.course after).2) := by
  obtain ⟨hget, hseen⟩ := course_seen hk h after
  have hk' := keyed_course hk after
  have hw := Run.Winding.course hc (r.movesOf id after)
  generalize (run.course (r.movesOf id after)).1 = run' at hget hw
  refine ⟨run', ?_⟩
  constructor
  case known => exact hget
  case cancelled => exact hw.cancelled
  case no_start => rw [hseen]; exact hw.no_start
  case one_end =>
    rw [hseen]
    have := hw.one_end
    omega
  case goes_on =>
    intro hn
    -- a cancellation overrides a pause
    have hheld : run'.isHeld = false := by
      unfold Run.isHeld
      split <;> simp [RunState.blocks, hw.cancelled]
    by_cases hq : ∃ i intent left, run'.phase = .awaiting i intent left
    · exact .inl hq
    · refine .inr fun trace => ?_
      rcases advance?_of_open hget hn trace with ho | ho | ho
      · rw [hheld] at ho
        cases ho
      · exact absurd ho hq
      · exact ho
  case moves => exact hw.moves
  case over_iff => rw [result?_isSome_iff hget, Run.movesLeft_eq_zero_iff]
  case advance_less =>
    intro trace r' s ha
    obtain ⟨next, hadv, hnext⟩ := advance?_run hget ha
    exact ⟨next, hnext, (hadv.winds_up hw.cancelled).1⟩
  case answer_less =>
    rintro outcome ⟨i, intent, left, hp⟩
    refine ⟨run'.answer outcome, ?_, Run.movesLeft_answer hp outcome⟩
    simp [answer, hget, Table.get?_insert]
  case at_step =>
    intro i hp hi
    refine ⟨perform_at_step hk' hget hw.cancelled hp hi, ?_⟩
    intro more
    have hmore := (course_seen hk' hget more).1
    have hb : Run.Barred i run' := ⟨hw.cancelled, hi, .inl hp⟩
    rcases (hb.course ((r.course after).1.movesOf id more)).place with hq | hq
    · left
      simp [result?, hmore, hq]
    · right
      exact (result?_eq_some_iff hmore _).mpr hq

/-- A cancellation that changed something has set the flag of its run. -/
theorem control_cancel {r r' : Runner} {id : String} {event : Option Event} (hk : r.Keyed)
    (h : r.control id .cancel = (r', true, event)) :
    r'.Keyed ∧ ∃ run, Table.get? r'.runs id = some run ∧ run.state.cancelled = true := by
  have hr : (r.perform (.control id .cancel)).1 = r' := by simp [perform, h]
  refine ⟨hr ▸ keyed_perform hk _, ?_⟩
  obtain ⟨run, state, hget, ha, rfl, -⟩ := control_of_true h
  have hstate : state.cancelled = true := by
    simp only [RunState.act?] at ha
    split at ha
    · cases ha
    · cases ha
      rfl
  refine ⟨{ run with state }, ?_, hstate⟩
  rw [Table.get?_insert, if_pos rfl]

/-- A step of a run begins only while nothing holds the run back. -/
theorem free_of_start {r : Runner} {id : String} {a : Act} {s : Signal} (hk : r.Keyed)
    (hs : s ∈ (r.perform a).2) (hid : s.runId = id) (hstart : s.startsStep = true) :
    ∃ run, Table.get? r.runs id = some run ∧ run.state = {} := by
  -- only a move of the run itself can begin a step of it
  cases ha : r.moveOf? id a with
  | some m =>
    cases hget : Table.get? r.runs id with
    | none =>
      rw [(perform_miss hget ha).2] at hs
      cases hs
    | some run =>
      rw [(perform_hit hk hget ha).1] at hs
      exact ⟨run, rfl, (run.moved m).free hs hstart⟩
  | none =>
    by_cases hb : ∃ pipeline options, a = .begin id pipeline options
    · obtain ⟨pipeline, options, rfl⟩ := hb
      rcases r.perform_begin id pipeline options with ⟨start, -, -, -, hsig⟩ | ⟨-, hno⟩
      · rw [hsig, List.mem_singleton] at hs
        rw [hs] at hstart
        cases hstart
      · rw [hno] at hs
        cases hs
    · have hnone := (perform_other hk ha fun p o h => absurd ⟨p, o, h⟩ hb).2
      have hmem : s ∈ seen id (r.perform a).2 := List.mem_filter.mpr ⟨hs, by simp [hid]⟩
      rw [hnone] at hmem
      cases hmem

/-- **Held back and cancelled runs.** Whatever has been done around a runner, a step of a run begins
only when the run is neither paused nor cancelled at that moment. When a cancellation by a handle
or by the runner has changed the run, then whatever is done afterwards, no step of it begins any
more and at most the one that had begun ends; in front of a step it ends as cancelled; and, paused
or not, it goes on until it is over, waiting for nothing but the handlers it has called. -/
theorem cancelled_run_winds_up (registry : Registry) (mappings : List Route) (root : String)
    (before : List Act) (id : String) :
    let r := ((fresh registry mappings root).course before).1
    (∀ a i stepId name, Signal.event ⟨id, .stepStart i stepId name⟩ ∈ (r.perform a).2 →
      ∃ run, Table.get? r.runs id = some run ∧ run.state.paused = false ∧
        run.state.cancelled = false) ∧
    (∀ r' event, r.control id .cancel = (r', true, event) ∨
        (r.current = some id ∧ r.controlCurrent .cancel = (r', true, event)) →
      ∃ atCancel, Table.get? r'.runs id = some atCancel ∧
        ∀ after, ∃ run, WindsUp (r'.course after).1 id atCancel run (seen id (r'.course after).2)) := by
  intro r
  have hk : r.Keyed := keyed_course (keyed_fresh registry mappings root) before
  refine ⟨?_, ?_⟩
  · intro a i stepId name hs
    obtain ⟨run, hget, hfree⟩ := free_of_start hk hs rfl rfl
    exact ⟨run, hget, by rw [hfree], by rw [hfree]⟩
  · intro r' event h
    have hcontrol : r.control id .cancel = (r', true, event) := by
      rcases h with h | ⟨hcur, h⟩
      · exact h
      · simpa [controlCurrent, hcur] using h
    obtain ⟨hk', run, hget, hc⟩ := control_cancel hk hcontrol
    exact ⟨run, hget, windsUp_of_cancelled hk' hget hc⟩

/-- A run that is paused in front of its first step and then cancelled ends, without a resumption. -/
theorem paused_run_ends_when_cancelled :
    ∃ r' event,
      ((fresh [] [] "/").course [.begin "r" messageless {}, .control "r" .pause]).1.control "r"
        .cancel = (r', true, event) ∧
      (r'.perform (.advance "r" "")).1.result? "r" = some (.ok .cancelled) := by
  refine ⟨_, _, rfl, ?_⟩
  obtain ⟨atCancel, -, hwinds⟩ := (cancelled_run_winds_up [] [] "/"
    [.begin "r" messageless {}, .control "r" .pause] "r").2 _ _ (.inl rfl)
  obtain ⟨run, hrun⟩ := hwinds []
  have hknown := Option.some.inj hrun.known
  refine (hrun.at_step 0 ?_ ?_).1 ""
  · rw [← hknown]
  · rw [← hknown]
    decide

end Runner

end Workflow
