import Workflow.Runner

/- Courses of runs: the moves of a run, the answers of handlers and the actions of
   anybody, in any order. An action may come between any two moves, and so wherever a
   listener, a handler or somebody else can take one. `Run.Advance` says all that a
   move of a run can be (`advance?_eq_some_iff`), `Run.course_keeps` is the induction
   over a course, and `Runner.course_seen` says that a course of a runner with many
   runs is, for each of them, a course of that run alone that shows the same. -/
namespace Workflow

/-- What can happen to a run. -/
inductive Move where
  | advance (around : Surroundings)
  | answer (outcome : Outcome)
  | act (action : ControlAction)

/-- The run that a signal is of. -/
def Signal.runId : Signal → String
  | .event e => e.runId
  | .invoke i => i.runId

@[simp] theorem Run.announce_runId (run : Run) (h : Happening) : (run.announce h).runId = run.id := rfl

namespace Run

/-- What a move of a run can be: the run after it, and what it shows. -/
inductive Advance (around : Surroundings) (run : Run) : Run → Signal → Prop where
  /-- No step is left. -/
  | success {i : Nat} (at_head : run.phase = .head i) (past : run.pipeline.steps.length ≤ i) :
      Advance around run { run with phase := .finished (.ok .success) }
        (run.announce (.ended .success))
  /-- The cancellation is seen in front of a step. -/
  | cancelled {i : Nat} {s : Intent} (at_head : run.phase = .head i)
      (step : run.pipeline.steps[i]? = some s) (flag : run.state.cancelled = true) :
      Advance around run { run with phase := .finished (.ok .cancelled) }
        (run.announce (.ended .cancelled))
  /-- The step cannot be compiled. -/
  | refused {i : Nat} {s : Intent} {e : PipelineError} (at_head : run.phase = .head i)
      (step : run.pipeline.steps[i]? = some s) (free : run.state = {})
      (ready : run.scope.ready s = .error e) :
      Advance around run { run with phase := .finished (.error e) }
        (run.announce (.ended .failure))
  /-- The run does the step itself. -/
  | control {i : Nat} {s : Intent} {kind : StepKind} (at_head : run.phase = .head i)
      (step : run.pipeline.steps[i]? = some s) (free : run.state = {})
      (ready : run.scope.ready s = .ok (.control kind)) :
      Advance around run { run with scope := run.scope.after kind, phase := .closing i true }
        (run.announce (.stepStart i s.id s.name))
  | dispatch {i : Nat} {s compiled intent : Intent} (at_head : run.phase = .head i)
      (step : run.pipeline.steps[i]? = some s) (free : run.state = {})
      (ready : run.scope.ready s = .ok (.dispatch compiled))
      (stamped : intent = compiled.stamped run.scope.dryRun around.trace run.id) :
      Advance around run { run with phase := .dispatching i intent none }
        (run.announce (.stepStart i s.id intent.name))
  /-- The next command is invoked, or the first one of those that are found now. -/
  | invoke {i : Nat} {intent : Intent} {known : Option (List Resolution)} {r : Resolution}
      {left : List Resolution} (at_command : run.phase = .dispatching i intent known)
      (commands : known.getD (around.resolve intent) = r :: left) :
      Advance around run { run with phase := .awaiting i intent left }
        (.invoke (run.invocation intent r))
  /-- No command is left, so the step is a success. -/
  | served {i : Nat} {intent : Intent} {known : Option (List Resolution)}
      (at_command : run.phase = .dispatching i intent known)
      (commands : known.getD (around.resolve intent) = []) :
      Advance around run
        { run with executed := run.executed + 1, phase := next run.pipeline i true }
        (run.announce (.stepEnd i (run.stepId i) true))
  | close {i : Nat} {success : Bool} (at_close : run.phase = .closing i success) :
      Advance around run
        { run with executed := run.executed + 1, phase := next run.pipeline i success }
        (run.announce (.stepEnd i (run.stepId i) success))
  | ending {status : RunStatus} (at_end : run.phase = .ending status) :
      Advance around run { run with phase := .finished (.ok status) }
        (run.announce (.ended status))

theorem free_of_unblocked {s : RunState} (hb : s.blocks = false) (hc : s.cancelled = false) :
    s = {} := by
  obtain ⟨paused, cancelled⟩ := s
  simp only [RunState.blocks] at hb hc
  subst hc
  simpa using hb

theorem advance_of_enter {around : Surroundings} {run run' : Run} {signal : Signal} {i : Nat}
    {s : Intent} (hp : run.phase = .head i) (hs : run.pipeline.steps[i]? = some s)
    (hf : run.state = {}) (h : run.enter around i s = (run', signal)) :
    Advance around run run' signal := by
  unfold enter at h
  split at h
  · rename_i e he
    cases h
    exact .refused hp hs hf he
  · rename_i kind hk
    cases h
    exact .control hp hs hf hk
  · rename_i compiled hk
    cases h
    exact .dispatch hp hs hf hk rfl

theorem advance_of_advance? {around : Surroundings} {run run' : Run} {signal : Signal}
    (h : run.advance? around = some (run', signal)) : Advance around run run' signal := by
  -- one constructor for each branch, in the order in which they are tried
  unfold advance? at h
  split at h
  · rename_i i hp
    split at h
    · rename_i hs
      cases h
      exact .success hp (List.getElem?_eq_none_iff.mp hs)
    · rename_i s hs
      split at h
      · cases h
      · rename_i hb
        split at h
        · rename_i hc
          cases h
          exact .cancelled hp hs hc
        · rename_i hc
          have hf := free_of_unblocked (Bool.eq_false_iff.mpr hb) (Bool.eq_false_iff.mpr hc)
          exact advance_of_enter hp hs hf (Option.some.inj h)
  · rename_i i intent known hp
    have hserve := Option.some.inj h
    cases hcommands : known.getD (around.resolve intent) with
    | nil =>
      rw [hcommands] at hserve
      cases hserve
      exact .served hp hcommands
    | cons r left =>
      rw [hcommands] at hserve
      cases hserve
      exact .invoke hp hcommands
  · cases h
  · rename_i hp
    cases h
    exact .close hp
  · rename_i hp
    cases h
    exact .ending hp
  · cases h

theorem advance?_of_advance {around : Surroundings} {run run' : Run} {signal : Signal}
    (h : Advance around run run' signal) : run.advance? around = some (run', signal) := by
  cases h with
  | success hp hi => simp [advance?, hp, List.getElem?_eq_none hi, finish]
  | cancelled hp hs hc => simp [advance?, hp, hs, RunState.blocks, hc, finish]
  | refused hp hs hf he => simp [advance?, hp, hs, RunState.blocks, hf, enter, he, finish]
  | control hp hs hf hk => simp [advance?, hp, hs, RunState.blocks, hf, enter, hk]
  | dispatch hp hs hf hk hi => simp [advance?, hp, hs, RunState.blocks, hf, enter, hk, hi]
  | invoke hp hcommands => simp [advance?, hp, hcommands, serve]
  | served hp hcommands => simp [advance?, hp, hcommands, serve, Run.close]
  | close hp => simp [advance?, hp, Run.close]
  | ending hp => simp [advance?, hp, finish]

theorem advance?_eq_some_iff {around : Surroundings} {run run' : Run} {signal : Signal} :
    run.advance? around = some (run', signal) ↔ Advance around run run' signal :=
  ⟨advance_of_advance?, advance?_of_advance⟩

/-- A run that cannot move has been held back in front of a step, waits for an answer, or is
over. -/
theorem advance?_eq_none_iff {around : Surroundings} {run : Run} :
    run.advance? around = none ↔
      run.isHeld = true ∨ (∃ i intent left, run.phase = .awaiting i intent left) ∨
        run.isOver = true := by
  unfold advance? isHeld isOver
  cases hp : run.phase with
  | head i =>
    cases hs : run.pipeline.steps[i]? with
    | none => simp [Nat.not_lt.mpr (List.getElem?_eq_none_iff.mp hs)]
    | some s =>
      have hi : i < run.pipeline.steps.length := (List.getElem?_eq_some_iff.mp hs).1
      cases hb : run.state.blocks <;> simp [hi]
      split <;> simp
  | dispatching i intent known => simp
  | awaiting i intent left => simp
  | closing i success => simp
  | ending status => simp
  | finished result => simp

/-! ## Courses of one run -/

/-- The run after a move, and what is shown. A move that cannot be made changes nothing. -/
def move (run : Run) : Move → Run × List Signal
  | .advance around =>
    match run.advance? around with
    | some (run, signal) => (run, [signal])
    | none => (run, [])
  | .answer outcome => (run.answer outcome, [])
  | .act action =>
    match run.state.act? action with
    | some state => ({ run with state }, (action.happening?.map run.announce).toList)
    | none => (run, [])

/-- The run after moves, and all that they show. -/
def course (run : Run) : List Move → Run × List Signal
  | [] => (run, [])
  | m :: rest => (((run.move m).1.course rest).1, (run.move m).2 ++ ((run.move m).1.course rest).2)

@[simp] theorem course_nil (run : Run) : run.course [] = (run, []) := rfl

@[simp] theorem course_singleton (run : Run) (m : Move) : run.course [m] = run.move m := by
  simp [course]

theorem course_append (run : Run) (first later : List Move) :
    run.course (first ++ later) =
      (((run.course first).1.course later).1,
        (run.course first).2 ++ ((run.course first).1.course later).2) := by
  induction first generalizing run with
  | nil => rfl
  | cons m rest ih => simp [course, ih]

/-- What holds of a run and all that has been shown of it, and is kept by every move, holds at
the end of a course. -/
theorem course_keeps (P : Run → List Signal → Prop)
    (hm : ∀ run shown m, P run shown → P (run.move m).1 (shown ++ (run.move m).2))
    {run : Run} {shown : List Signal} (h : P run shown) (moves : List Move) :
    P (run.course moves).1 (shown ++ (run.course moves).2) := by
  induction moves generalizing run shown with
  | nil => simpa using h
  | cons m rest ih =>
    have := ih (hm run shown m h)
    simpa [course] using this

/-- What holds of a run, whatever has been shown of it, and is kept by every move. -/
theorem course_invariant (P : Run → Prop) (hm : ∀ run m, P run → P (run.move m).1) {run : Run}
    (h : P run) (moves : List Move) : P (run.course moves).1 := by
  induction moves generalizing run with
  | nil => exact h
  | cons m rest ih => exact ih (hm run m h)

/-- What an answer can do to a run. -/
inductive Answered (outcome : Outcome) (run : Run) : Run → Prop where
  | granted {i : Nat} {intent : Intent} {left : List Resolution}
      (waiting : run.phase = .awaiting i intent left) (good : outcome.success = true) :
      Answered outcome run
        { run with
          scope := { run.scope with vars := Table.insertAll run.scope.vars outcome.vars }
          phase := if left.isEmpty then .closing i true else .dispatching i intent (some left) }
  | failed {i : Nat} {intent : Intent} {left : List Resolution}
      (waiting : run.phase = .awaiting i intent left) (bad : outcome.success = false) :
      Answered outcome run { run with phase := .closing i false }
  /-- Nobody was asked. -/
  | idle (busy : ∀ i intent left, run.phase ≠ .awaiting i intent left) : Answered outcome run run

theorem answered (run : Run) (outcome : Outcome) : Answered outcome run (run.answer outcome) := by
  unfold answer
  split
  · rename_i i intent left hp
    split
    · rename_i hs
      exact .granted hp hs
    · rename_i hs
      exact .failed hp (Bool.eq_false_iff.mpr hs)
  · rename_i hp
    exact .idle hp

theorem Answered.frame {outcome : Outcome} {run run' : Run} (h : Answered outcome run run') :
    run'.id = run.id ∧ run'.pipeline = run.pipeline ∧ run'.state = run.state ∧
      run'.executed = run.executed := by
  cases h <;> exact ⟨rfl, rfl, rfl, rfl⟩

theorem Advance.id {around : Surroundings} {run run' : Run} {signal : Signal}
    (h : Advance around run run' signal) : run'.id = run.id ∧ signal.runId = run.id := by
  cases h <;> exact ⟨rfl, rfl⟩

theorem Advance.pipeline {around : Surroundings} {run run' : Run} {signal : Signal}
    (h : Advance around run run' signal) : run'.pipeline = run.pipeline := by
  cases h <;> rfl

theorem Advance.state {around : Surroundings} {run run' : Run} {signal : Signal}
    (h : Advance around run run' signal) : run'.state = run.state := by
  cases h <;> rfl

/-- What a move can be, and what it shows. -/
inductive Moved (run : Run) : Move → Run × List Signal → Prop where
  | advance {around : Surroundings} {run' : Run} {signal : Signal}
      (h : Advance around run run' signal) : Moved run (.advance around) (run', [signal])
  | answer {outcome : Outcome} {run' : Run} (h : Answered outcome run run') :
      Moved run (.answer outcome) (run', [])
  | act {action : ControlAction} {state : RunState} (h : run.state.act? action = some state) :
      Moved run (.act action)
        ({ run with state }, (action.happening?.map run.announce).toList)
  | nothing {m : Move} : Moved run m (run, [])

theorem moved (run : Run) (m : Move) : Moved run m (run.move m) := by
  cases m with
  | advance around =>
    cases h : run.advance? around with
    | none => simpa [move, h] using Moved.nothing
    | some next => simpa [move, h] using Moved.advance (advance_of_advance? h)
  | answer outcome => exact .answer (run.answered outcome)
  | act action =>
    cases h : run.state.act? action with
    | none => simpa [move, h] using Moved.nothing
    | some state => simpa [move, h] using Moved.act h

theorem Moved.frame {run : Run} {m : Move} {out : Run × List Signal} (h : Moved run m out) :
    out.1.id = run.id ∧ out.1.pipeline = run.pipeline ∧ ∀ s ∈ out.2, s.runId = run.id := by
  cases h with
  | advance h => exact ⟨h.id.1, h.pipeline, by simpa using h.id.2⟩
  | answer h => exact ⟨h.frame.1, h.frame.2.1, by simp⟩
  | @act action state h => cases action <;> simp [ControlAction.happening?]
  | nothing => simp

theorem course_frame (run : Run) (moves : List Move) :
    (run.course moves).1.id = run.id ∧ (run.course moves).1.pipeline = run.pipeline ∧
      ∀ s ∈ (run.course moves).2, s.runId = run.id := by
  refine course_keeps (fun r shown =>
    r.id = run.id ∧ r.pipeline = run.pipeline ∧ ∀ s ∈ shown, s.runId = run.id) ?_
    ⟨rfl, rfl, List.forall_mem_nil _⟩ moves
  intro r shown m ⟨hi, hp, hs⟩
  obtain ⟨hi', hp', hs'⟩ := (r.moved m).frame
  refine ⟨hi'.trans hi, hp'.trans hp, ?_⟩
  intro s h
  rcases List.mem_append.mp h with h | h
  · exact hs s h
  · exact (hs' s h).trans hi

end Run

/-! ## Courses of a runner -/

/-- What can be done around a runner. -/
inductive Act where
  /-- A run asked for, under an id made up for it. -/
  | begin (id : String) (pipeline : Pipeline) (options : RunOptions)
  | advance (id trace : String)
  | answer (id : String) (outcome : Outcome)
  /-- An action by a handle on a run, which may outlive the run. -/
  | control (id : String) (action : ControlAction)
  | controlCurrent (action : ControlAction)
  | register (registration : Registration)

namespace Runner

/-- The runner after an act, and what is shown. An id is not made up twice, so nothing begins
under one that a run has. -/
def perform (r : Runner) : Act → Runner × List Signal
  | .begin id pipeline options =>
    if (Table.get? r.runs id).isSome then (r, [])
    else match r.begin id pipeline options with
      | .ok (r, event) => (r, [.event event])
      | .error _ => (r, [])
  | .advance id trace =>
    match r.advance? id trace with
    | some (r, signal) => (r, [signal])
    | none => (r, [])
  | .answer id outcome => (r.answer id outcome, [])
  | .control id action => ((r.control id action).1, (r.control id action).2.2.toList.map .event)
  | .controlCurrent action =>
    ((r.controlCurrent action).1, (r.controlCurrent action).2.2.toList.map .event)
  | .register registration => ({ r with registry := r.registry.register registration }, [])

/-- The runner after acts, and all that they show. -/
def course (r : Runner) : List Act → Runner × List Signal
  | [] => (r, [])
  | a :: rest =>
    (((r.perform a).1.course rest).1, (r.perform a).2 ++ ((r.perform a).1.course rest).2)

@[simp] theorem course_nil (r : Runner) : r.course [] = (r, []) := rfl

theorem course_append (r : Runner) (first later : List Act) :
    r.course (first ++ later) =
      (((r.course first).1.course later).1,
        (r.course first).2 ++ ((r.course first).1.course later).2) := by
  induction first generalizing r with
  | nil => rfl
  | cons a rest ih => simp [course, ih]

/-- Every run stands under its own id. -/
def Keyed (r : Runner) : Prop := ∀ id run, Table.get? r.runs id = some run → run.id = id

/-- What an act is to the run of an id. -/
def moveOf? (r : Runner) (id : String) : Act → Option Move
  | .advance i trace => if i = id then some (.advance ⟨r.registry, r.mappings, trace⟩) else none
  | .answer i outcome => if i = id then some (.answer outcome) else none
  | .control i action => if i = id then some (.act action) else none
  | .controlCurrent action => if r.current = some id then some (.act action) else none
  | _ => none

/-- What acts are to the run of an id. -/
def movesOf (r : Runner) (id : String) : List Act → List Move
  | [] => []
  | a :: rest => (r.moveOf? id a).toList ++ (r.perform a).1.movesOf id rest

/-- The signals of the run of an id. -/
def seen (id : String) (signals : List Signal) : List Signal := signals.filter (·.runId == id)

theorem seen_append (id : String) (a b : List Signal) : seen id (a ++ b) = seen id a ++ seen id b :=
  List.filter_append a b

theorem seen_all {id : String} {signals : List Signal} (h : ∀ s ∈ signals, s.runId = id) :
    seen id signals = signals :=
  List.filter_eq_self.mpr fun s hs => by simp [h s hs]

theorem seen_none {id i : String} {signals : List Signal} (h : ∀ s ∈ signals, s.runId = i)
    (hi : i ≠ id) : seen id signals = [] :=
  List.filter_eq_nil_iff.mpr fun s hs => by simp [h s hs, hi]

theorem control_runs {r : Runner} {id : String} {run : Run} (hk : r.Keyed)
    (h : Table.get? r.runs id = some run) (action : ControlAction) :
    (r.control id action).2.2.toList.map .event = (run.move (.act action)).2 ∧
    ((r.control id action).1.runs = Table.insert id (run.move (.act action)).1 r.runs ∨
      (r.control id action).1.runs = r.runs ∧ (run.move (.act action)).1 = run) := by
  have hid := hk id run h
  simp only [control, h, Run.move]
  cases run.state.act? action with
  | none => exact ⟨rfl, .inr ⟨rfl, rfl⟩⟩
  | some state =>
    refine ⟨?_, .inl rfl⟩
    cases action <;> simp [ControlAction.happening?, Run.announce, hid]

/-- An act on a run that there is puts the run after its move in the place of the run, and shows
what the move shows. -/
theorem perform_hit {r : Runner} {id : String} {run : Run} {a : Act} {m : Move} (hk : r.Keyed)
    (h : Table.get? r.runs id = some run) (ha : r.moveOf? id a = some m) :
    (r.perform a).2 = (run.move m).2 ∧
    ((r.perform a).1.runs = Table.insert id (run.move m).1 r.runs ∨
      (r.perform a).1.runs = r.runs ∧ (run.move m).1 = run) := by
  cases a with
  | begin i pipeline options => cases ha
  | register registration => cases ha
  | advance i trace =>
    obtain ⟨rfl, rfl⟩ : i = id ∧ .advance ⟨r.registry, r.mappings, trace⟩ = m := by
      simpa [moveOf?] using ha
    simp only [perform, advance?, h, Run.move, Option.bind_eq_bind, Option.bind_some]
    cases hr : run.advance? ⟨r.registry, r.mappings, trace⟩ with
    | none => exact ⟨rfl, .inr ⟨rfl, rfl⟩⟩
    | some next =>
      refine ⟨rfl, .inl ?_⟩
      by_cases ho : next.1.isOver = true <;> simp [ho, release]
  | answer i outcome =>
    obtain ⟨rfl, rfl⟩ : i = id ∧ .answer outcome = m := by simpa [moveOf?] using ha
    exact ⟨rfl, .inl (by simp [perform, answer, h, Run.move])⟩
  | control i action =>
    obtain ⟨rfl, rfl⟩ : i = id ∧ .act action = m := by simpa [moveOf?] using ha
    exact control_runs hk h action
  | controlCurrent action =>
    obtain ⟨hc, rfl⟩ : r.current = some id ∧ .act action = m := by simpa [moveOf?] using ha
    simpa [perform, controlCurrent, hc] using control_runs hk h action

/-- An act on a run that there is not does nothing to any. -/
theorem perform_miss {r : Runner} {id : String} {a : Act} {m : Move}
    (h : Table.get? r.runs id = none) (ha : r.moveOf? id a = some m) :
    (r.perform a).1.runs = r.runs ∧ (r.perform a).2 = [] := by
  cases a with
  | begin i pipeline options => cases ha
  | register registration => cases ha
  | advance i trace =>
    obtain ⟨rfl, -⟩ : i = id ∧ _ = m := by simpa [moveOf?] using ha
    simp [perform, advance?, h]
  | answer i outcome =>
    obtain ⟨rfl, -⟩ : i = id ∧ _ = m := by simpa [moveOf?] using ha
    simp [perform, answer, h]
  | control i action =>
    obtain ⟨rfl, -⟩ : i = id ∧ _ = m := by simpa [moveOf?] using ha
    simp [perform, control, h]
  | controlCurrent action =>
    obtain ⟨hc, -⟩ : r.current = some id ∧ _ = m := by simpa [moveOf?] using ha
    simp [perform, controlCurrent, hc, control, h]

/-- An act that is none on any run either begins one or changes nothing about the runs. -/
theorem perform_none {r : Runner} {a : Act} (ha : ∀ id, r.moveOf? id a = none) :
    (∃ id pipeline options, a = .begin id pipeline options) ∨
      (r.perform a).1.runs = r.runs ∧ (r.perform a).2 = [] := by
  cases a with
  | begin i pipeline options => exact .inl ⟨i, pipeline, options, rfl⟩
  | register registration => exact .inr ⟨rfl, rfl⟩
  | advance i trace => simpa [moveOf?] using ha i
  | answer i outcome => simpa [moveOf?] using ha i
  | control i action => simpa [moveOf?] using ha i
  | controlCurrent action =>
    cases hc : r.current with
    | some i => simpa [moveOf?, hc] using ha i
    | none => exact .inr (by simp [perform, controlCurrent, hc])

/-- The run that a runner begins. -/
def newRun (r : Runner) (id : String) (pipeline : Pipeline) (options : RunOptions) (start : Nat) :
    Run where
  id := id
  pipeline := pipeline
  scope := {
    vars := options.vars
    cwd := options.cwd.getD r.workspaceRoot
    dryRun := options.dryRun }
  phase := .head start

theorem begin_ok {r : Runner} {pipeline : Pipeline} {options : RunOptions} {start : Nat}
    (h : pipeline.startIndex options.start = .ok start) (id : String) :
    r.begin id pipeline options = .ok
      ({ r with
          runs := Table.insert id (r.newRun id pipeline options start) r.runs
          active := id :: r.active
          current := some id },
        ⟨id, .pipelineStart pipeline⟩) := by
  simp [begin, h, bind, Except.bind, newRun]

theorem begin_error {r : Runner} {pipeline : Pipeline} {options : RunOptions} {e : PipelineError}
    (h : pipeline.startIndex options.start = .error e) (id : String) :
    r.begin id pipeline options = .error e := by
  simp [begin, h, bind, Except.bind]

/-- A run asked for either begins or leaves no trace. -/
theorem perform_begin (r : Runner) (id : String) (pipeline : Pipeline) (options : RunOptions) :
    (∃ start, Table.get? r.runs id = none ∧ pipeline.startIndex options.start = .ok start ∧
      (r.perform (.begin id pipeline options)).1.runs =
        Table.insert id (r.newRun id pipeline options start) r.runs ∧
      (r.perform (.begin id pipeline options)).2 = [.event ⟨id, .pipelineStart pipeline⟩]) ∨
    ((Table.get? r.runs id).isSome ∨ ∃ e, pipeline.startIndex options.start = .error e) ∧
      r.perform (.begin id pipeline options) = (r, []) := by
  cases hid : Table.get? r.runs id with
  | some run => exact .inr ⟨.inl rfl, by simp [perform, hid]⟩
  | none =>
    cases hs : pipeline.startIndex options.start with
    | error e => exact .inr ⟨.inr ⟨e, rfl⟩, by simp [perform, hid, begin_error hs]⟩
    | ok start =>
      refine .inl ⟨start, rfl, rfl, ?_, ?_⟩ <;> simp [perform, hid, begin_ok hs]

/-- An act that is no move of a run and does not begin it leaves it alone and shows nothing of
it. -/
theorem perform_other {r : Runner} {id : String} {a : Act} (hk : r.Keyed)
    (ha : r.moveOf? id a = none)
    (hb : ∀ pipeline options, a = .begin id pipeline options → (Table.get? r.runs id).isSome) :
    Table.get? (r.perform a).1.runs id = Table.get? r.runs id ∧ seen id (r.perform a).2 = [] := by
  by_cases hm : ∃ i m, r.moveOf? i a = some m
  · -- a move of another run, which shows nothing but its own
    obtain ⟨i, m, hm⟩ := hm
    have hi : i ≠ id := by
      rintro rfl
      rw [ha] at hm
      cases hm
    cases h : Table.get? r.runs i with
    | none =>
      obtain ⟨hr, hs⟩ := perform_miss h hm
      rw [hr, hs]
      exact ⟨rfl, rfl⟩
    | some run =>
      obtain ⟨hs, hr⟩ := perform_hit hk h hm
      refine ⟨?_, ?_⟩
      · rcases hr with hr | ⟨hr, -⟩ <;> rw [hr]
        rw [Table.get?_insert, if_neg hi]
      · rw [hs]
        exact seen_none (fun s hs => ((run.moved m).frame.2.2 s hs).trans (hk i run h)) hi
  · have hm : ∀ i, r.moveOf? i a = none := fun i => by
      cases h : r.moveOf? i a with
      | none => rfl
      | some m => exact absurd ⟨i, m, h⟩ hm
    rcases perform_none hm with ⟨i, pipeline, options, rfl⟩ | ⟨hr, hs⟩
    · -- the beginning of a run, which cannot be this one
      rcases r.perform_begin i pipeline options with ⟨start, hn, -, hr, hs⟩ | ⟨-, h⟩
      · have hi : i ≠ id := by
          rintro rfl
          simpa [hn] using hb pipeline options rfl
        rw [hr, hs, Table.get?_insert, if_neg hi]
        exact ⟨rfl, seen_none (i := i) (by simp [Signal.runId]) hi⟩
      · rw [h]
        exact ⟨rfl, rfl⟩
    · rw [hr, hs]
      exact ⟨rfl, rfl⟩

/-- What an act does to one run is what its move does, if it has one for the run. -/
theorem perform_seen {r : Runner} {id : String} {run : Run} (hk : r.Keyed)
    (h : Table.get? r.runs id = some run) (a : Act) :
    Table.get? (r.perform a).1.runs id = some (run.course (r.moveOf? id a).toList).1 ∧
      seen id (r.perform a).2 = (run.course (r.moveOf? id a).toList).2 := by
  cases ha : r.moveOf? id a with
  | none =>
    obtain ⟨hr, hs⟩ := perform_other hk ha (fun _ _ _ => by simp [h])
    rw [hr, hs]
    exact ⟨h, rfl⟩
  | some m =>
    obtain ⟨hs, hr⟩ := perform_hit hk h ha
    simp only [Option.toList_some, Run.course_singleton]
    refine ⟨?_, ?_⟩
    · rcases hr with hr | ⟨hr, hm⟩ <;> rw [hr]
      · rw [Table.get?_insert, if_pos rfl]
      · rw [h, hm]
    · rw [hs]
      exact seen_all fun s hs => ((run.moved m).frame.2.2 s hs).trans (hk id run h)

/-- A run that was not there before an act has been begun by it. -/
theorem newRun_of_perform {r : Runner} {id : String} {a : Act} {run : Run} (hk : r.Keyed)
    (hid : Table.get? r.runs id = none) (h : Table.get? (r.perform a).1.runs id = some run) :
    ∃ pipeline options start, run = r.newRun id pipeline options start := by
  by_cases hb : ∃ pipeline options, a = .begin id pipeline options
  · obtain ⟨pipeline, options, rfl⟩ := hb
    rcases r.perform_begin id pipeline options with ⟨start, -, -, hr, -⟩ | ⟨-, hr⟩
    · rw [hr, Table.get?_insert, if_pos rfl] at h
      exact ⟨pipeline, options, start, (Option.some.inj h).symm⟩
    · rw [hr, hid] at h
      cases h
  · cases ha : r.moveOf? id a with
    | none =>
      obtain ⟨hr, -⟩ := perform_other hk ha (fun p o h => absurd ⟨p, o, h⟩ hb)
      rw [hr, hid] at h
      cases h
    | some m =>
      rw [(perform_miss hid ha).1, hid] at h
      cases h

theorem keyed_perform {r : Runner} (hk : r.Keyed) (a : Act) : (r.perform a).1.Keyed := by
  intro id run h
  cases hid : Table.get? r.runs id with
  | some old =>
    obtain ⟨hr, -⟩ := perform_seen hk hid a
    rw [hr] at h
    cases h
    exact (old.course_frame _).1.trans (hk id old hid)
  | none =>
    obtain ⟨pipeline, options, start, rfl⟩ := newRun_of_perform hk hid h
    rfl

theorem keyed_course {r : Runner} (hk : r.Keyed) (acts : List Act) : (r.course acts).1.Keyed := by
  induction acts generalizing r with
  | nil => exact hk
  | cons a rest ih => exact ih (keyed_perform hk a)

/-- A course of a runner is, for a run that there is, a course of the run alone, and shows of it
what that course shows. -/
theorem course_seen {r : Runner} {id : String} {run : Run} (hk : r.Keyed)
    (h : Table.get? r.runs id = some run) (acts : List Act) :
    Table.get? (r.course acts).1.runs id = some (run.course (r.movesOf id acts)).1 ∧
      seen id (r.course acts).2 = (run.course (r.movesOf id acts)).2 := by
  -- the run changes with the acts, and its moves are read off the runner as it then is
  induction acts generalizing r run with
  | nil => exact ⟨h, rfl⟩
  | cons a rest ih =>
    obtain ⟨hr, hs⟩ := perform_seen hk h a
    obtain ⟨hr', hs'⟩ := ih (keyed_perform hk a) hr
    simp only [course, movesOf, Run.course_append, seen_append]
    exact ⟨hr', by rw [hs, hs']⟩

/-- What every new run has and every move of a run keeps, all runs have at all times. -/
theorem runs_keep {P : Run → Prop} {r : Runner} (hk : r.Keyed)
    (hnew : ∀ r id pipeline options start, P (newRun r id pipeline options start))
    (hm : ∀ run m, P run → P (run.move m).1)
    (h : ∀ id run, Table.get? r.runs id = some run → P run) (acts : List Act) :
    ∀ id run, Table.get? (r.course acts).1.runs id = some run → P run := by
  induction acts generalizing r with
  | nil => exact h
  | cons a rest ih =>
    refine ih (keyed_perform hk a) fun id run hrun => ?_
    cases hid : Table.get? r.runs id with
    | some old =>
      rw [(perform_seen hk hid a).1] at hrun
      cases hrun
      exact Run.course_invariant P hm (h id old hid) _
    | none =>
      obtain ⟨pipeline, options, start, rfl⟩ := newRun_of_perform hk hid hrun
      exact hnew r id pipeline options start

/-- What an action has done that changed something. -/
theorem control_of_true {r r' : Runner} {id : String} {action : ControlAction}
    {event : Option Event} (h : r.control id action = (r', true, event)) :
    ∃ run state, Table.get? r.runs id = some run ∧ run.state.act? action = some state ∧
      r' = { r with runs := Table.insert id { run with state } r.runs } ∧
      event = action.happening?.map (⟨id, ·⟩) := by
  unfold control at h
  cases hget : Table.get? r.runs id with
  | none => simp [hget] at h
  | some run =>
    cases hact : run.state.act? action with
    | none => simp [hget, hact] at h
    | some state =>
      simp only [hget, hact, Prod.mk.injEq, true_and] at h
      exact ⟨run, state, rfl, hact, h.1.symm, h.2.symm⟩

theorem control_frame (r : Runner) (id : String) (action : ControlAction) :
    ∃ runs, (r.control id action).1 = { r with runs } := by
  unfold control
  cases Table.get? r.runs id with
  | none => exact ⟨r.runs, rfl⟩
  | some run => cases hact : run.state.act? action <;> simp only [hact] <;> exact ⟨_, rfl⟩

/-- An act that is no registration changes nothing but the runs and which of them are in
progress. -/
theorem perform_frame {r : Runner} {a : Act} (ha : ∀ registration, a ≠ .register registration) :
    ∃ runs active current, (r.perform a).1 = { r with runs, active, current } := by
  cases a with
  | begin id p options =>
    cases hid : Table.get? r.runs id with
    | some run => exact ⟨r.runs, r.active, r.current, by simp [perform, hid]⟩
    | none =>
      cases hs : p.startIndex options.start with
      | ok start => exact ⟨_, _, _, by simp only [perform, hid, begin_ok hs]; rfl⟩
      | error e => exact ⟨r.runs, r.active, r.current, by simp [perform, hid, begin_error hs]⟩
  | advance id trace =>
    cases hnext : r.advance? id trace with
    | none => exact ⟨r.runs, r.active, r.current, by simp [perform, hnext]⟩
    | some next =>
      simp only [perform, hnext]
      simp only [advance?, Option.bind_eq_bind, Option.bind_eq_some_iff] at hnext
      obtain ⟨run, -, moved, -, hnext⟩ := hnext
      cases hnext
      cases moved.1.isOver <;> exact ⟨_, _, _, rfl⟩
  | answer id o =>
    simp only [perform, answer]
    cases Table.get? r.runs id <;> exact ⟨_, _, _, rfl⟩
  | control id action =>
    obtain ⟨runs, hruns⟩ := control_frame r id action
    exact ⟨runs, r.active, r.current, hruns⟩
  | controlCurrent action =>
    simp only [perform, controlCurrent]
    cases r.current with
    | none => exact ⟨_, _, _, rfl⟩
    | some id =>
      obtain ⟨runs, hruns⟩ := control_frame r id action
      exact ⟨runs, r.active, _, hruns⟩
  | register registration => exact absurd rfl (ha registration)

/-- Whatever is done around a runner, it keeps its mappings and its root. -/
theorem course_setting (r : Runner) (acts : List Act) :
    (r.course acts).1.mappings = r.mappings ∧
      (r.course acts).1.workspaceRoot = r.workspaceRoot := by
  induction acts generalizing r with
  | nil => exact ⟨rfl, rfl⟩
  | cons a rest ih =>
    have hperform : (r.perform a).1.mappings = r.mappings ∧
        (r.perform a).1.workspaceRoot = r.workspaceRoot := by
      by_cases ha : ∃ registration, a = .register registration
      · obtain ⟨registration, rfl⟩ := ha
        exact ⟨rfl, rfl⟩
      · obtain ⟨runs, active, current, hframe⟩ := perform_frame fun registration h =>
          ha ⟨registration, h⟩
        rw [hframe]
        exact ⟨rfl, rfl⟩
    exact ⟨(ih _).1.trans hperform.1, (ih _).2.trans hperform.2⟩

/-- A runner that nothing has been done with. -/
def fresh (registry : Registry) (mappings : List Route) (root : String) : Runner :=
  { registry, mappings, workspaceRoot := root }

theorem keyed_fresh (registry : Registry) (mappings : List Route) (root : String) :
    (fresh registry mappings root).Keyed := by
  intro id run h
  cases h

end Runner

end Workflow
