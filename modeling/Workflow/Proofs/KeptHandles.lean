import Workflow.Proofs.ActiveRuns

/- What handles do to a run that is over. The runner gives out no handle on it any more and does
   not mean it by an action of its own, but the handles that were given out still set its
   flags, which know nothing of the end, and announce that under its id
   (`handles_outlive_runs`). Only a run that was cancelled and is not paused is left in peace
   by them. -/
namespace Workflow

/-! ## Flags under actions -/

namespace RunState

/-- The flags after actions. -/
def after (s : RunState) (actions : List ControlAction) : RunState := actions.foldl act s

/-- What is announced of actions that are taken one after the other. -/
def announced (s : RunState) : List ControlAction → List Happening
  | [] => []
  | a :: rest => ((s.act? a).bind fun _ => a.happening?).toList ++ (s.act a).announced rest

/-- The flags that no action changes. -/
def atPeace : RunState := { paused := false, cancelled := true }

theorem after_append (s : RunState) (first later : List ControlAction) :
    s.after (first ++ later) = (s.after first).after later :=
  List.foldl_append

theorem announced_append (s : RunState) (first later : List ControlAction) :
    s.announced (first ++ later) = s.announced first ++ (s.after first).announced later := by
  induction first generalizing s with
  | nil => rfl
  | cons a rest ih =>
    show _ ++ (s.act a).announced (rest ++ later) = (_ ++ _) ++ _
    rw [ih, List.append_assoc]
    rfl

theorem act?_atPeace (a : ControlAction) : atPeace.act? a = none := by
  cases a <;> rfl

theorem eq_atPeace {s : RunState} (h : ∀ a, s.act? a = none) : s = atPeace := by
  obtain ⟨paused, cancelled⟩ := s
  have hpaused : paused = false := by simpa [act?] using h .resume
  have hcancelled : cancelled = true := by simpa [act?] using h .cancel
  rw [hpaused, hcancelled]
  rfl

theorem rest_atPeace (actions : List ControlAction) :
    atPeace.after actions = atPeace ∧ atPeace.announced actions = [] := by
  induction actions with
  | nil => exact ⟨rfl, rfl⟩
  | cons a rest ih =>
    have hact : atPeace.act a = atPeace := by
      rw [act, act?_atPeace]
      rfl
    show (atPeace.act a).after rest = atPeace ∧ _ ++ (atPeace.act a).announced rest = []
    rw [hact, act?_atPeace]
    exact ih

end RunState

/-! ## Runs that are over -/

namespace Run

/-- A run that is over makes no move. -/
theorem advance?_of_isOver {run : Run} (h : run.isOver = true) (around : Surroundings) :
    run.advance? around = none :=
  advance?_eq_none_iff.mpr (.inr (.inr h))

theorem answer_of_isOver {run : Run} (h : run.isOver = true) (outcome : Outcome) :
    run.answer outcome = run := by
  unfold isOver at h
  unfold answer
  cases hp : run.phase <;> simp [hp] at h ⊢

theorem move_act (run : Run) (action : ControlAction) :
    run.move (.act action) = ({ run with state := run.state.after [action] },
      (run.state.announced [action]).map run.announce) := by
  cases hact : run.state.act? action with
  | none => simp [move, RunState.after, RunState.announced, RunState.act, hact]
  | some state =>
    cases action <;>
      simp [move, RunState.after, RunState.announced, RunState.act, hact, ControlAction.happening?]

end Run

namespace Runner

/-- The actions that are taken by handles on a run. -/
def handled (id : String) (acts : List Act) : List ControlAction :=
  acts.filterMap fun
    | .control i action => if i = id then some action else none
    | _ => none

section Over

variable {r : Runner} {shown : List Signal} {id : String} {run : Run}

/-- A run that is over is given out no handle on, and meant by no action on the runner. -/
theorem Tracks.forgotten (h : Tracks r shown) (hrun : Table.get? r.runs id = some run)
    (hover : run.isOver = true) : r.hasHandle id = false ∧ r.current ≠ some id := by
  have hinactive : id ∉ r.active := by
    rw [h.active, over?, hrun, Option.map_some, hover]
    simp
  refine ⟨by simpa [hasHandle] using hinactive, fun hcurrent => ?_⟩
  rw [h.current, Option.filter_eq_some_iff] at hcurrent
  exact hinactive (by simpa using hcurrent.2)

theorem Tracks.over_perform (h : Tracks r shown) (hrun : Table.get? r.runs id = some run)
    (hover : run.isOver = true) (a : Act) :
    Table.get? (r.perform a).1.runs id =
        some { run with state := run.state.after (handled id [a]) } ∧
      seen id (r.perform a).2 =
        (run.state.announced (handled id [a])).map fun what => .event ⟨id, what⟩ := by
  obtain ⟨hafter, hseen⟩ := perform_seen h.keyed hrun a
  rw [hafter, hseen]
  have hid : run.id = id := h.keyed id run hrun
  cases a with
  | begin i pipeline options => exact ⟨rfl, rfl⟩
  | register registration => exact ⟨rfl, rfl⟩
  | advance i trace =>
    by_cases hi : i = id
    · simp [moveOf?, hi, Run.move, Run.advance?_of_isOver hover, handled, RunState.after,
        RunState.announced]
    · simp [moveOf?, hi, handled, RunState.after, RunState.announced]
  | answer i outcome =>
    by_cases hi : i = id
    · simp [moveOf?, hi, Run.move, Run.answer_of_isOver hover, handled, RunState.after,
        RunState.announced]
    · simp [moveOf?, hi, handled, RunState.after, RunState.announced]
  | control i action =>
    by_cases hi : i = id
    · have hmove : r.moveOf? id (.control i action) = some (.act action) := if_pos hi
      have hhandled : handled id [.control i action] = [action] := by simp [handled, hi]
      rw [hmove, hhandled, Option.toList_some, Run.course_singleton, run.move_act]
      refine ⟨rfl, ?_⟩
      unfold Run.announce
      rw [hid]
    · simp [moveOf?, hi, handled, RunState.after, RunState.announced]
  | controlCurrent action =>
    have hmove : r.moveOf? id (.controlCurrent action) = none :=
      if_neg (h.forgotten hrun hover).2
    rw [hmove]
    exact ⟨rfl, rfl⟩

theorem handled_cons (a : Act) (rest : List Act) :
    handled id (a :: rest) = handled id [a] ++ handled id rest := by
  show List.filterMap _ ([a] ++ rest) = _
  exact List.filterMap_append

theorem Tracks.over_course (h : Tracks r shown) (hrun : Table.get? r.runs id = some run)
    (hover : run.isOver = true) (acts : List Act) :
    Table.get? (r.course acts).1.runs id =
        some { run with state := run.state.after (handled id acts) } ∧
      seen id (r.course acts).2 =
        (run.state.announced (handled id acts)).map fun what => .event ⟨id, what⟩ := by
  induction acts generalizing r shown run with
  | nil => exact ⟨hrun, rfl⟩
  | cons a rest ih =>
    obtain ⟨hafter, hseen⟩ := h.over_perform hrun hover a
    obtain ⟨hafter', hseen'⟩ := ih (h.perform a) hafter hover
    rw [handled_cons, RunState.after_append, RunState.announced_append, List.map_append]
    refine ⟨hafter', ?_⟩
    show seen id (_ ++ _) = _
    rw [seen_append, hseen, hseen']

end Over

/-- What is known of a run that was over as `run`, when these acts have been done since and have
shown all this. -/
structure Outlived (r : Runner) (id : String) (run : Run) (acts : List Act) (shown : List Signal) :
    Prop where
  /-- Nothing of the run has changed but its flags, and those as the handles would have it. -/
  known : Table.get? r.runs id = some { run with state := run.state.after (handled id acts) }
  /-- Nothing was shown of it but what the handles announced. -/
  announced : seen id shown =
    (run.state.announced (handled id acts)).map fun what => .event ⟨id, what⟩
  /-- A handle answers by the flags alone. -/
  answers : ∀ action, (r.control id action).2.1 =
    ((run.state.after (handled id acts)).act? action).isSome
  /-- The runner gives out no handle on it, and its own actions pass it by. -/
  forgotten : r.hasHandle id = false
  passed_by : ∀ action, Table.get? (r.controlCurrent action).1.runs id = Table.get? r.runs id

theorem control_answer {r : Runner} {id : String} {run : Run}
    (h : Table.get? r.runs id = some run) (action : ControlAction) :
    (r.control id action).2.1 = (run.state.act? action).isSome := by
  unfold control
  rw [h]
  dsimp only
  cases run.state.act? action <;> rfl

theorem Tracks.outlived {r : Runner} {shown : List Signal} {id : String} {run : Run}
    (h : Tracks r shown) (hrun : Table.get? r.runs id = some run) (hover : run.isOver = true)
    (acts : List Act) : Outlived (r.course acts).1 id run acts (r.course acts).2 := by
  obtain ⟨hknown, hannounced⟩ := h.over_course hrun hover acts
  obtain ⟨hhandle, hcurrent⟩ := (h.course acts).forgotten hknown hover
  constructor
  case known => exact hknown
  case announced => exact hannounced
  case answers => exact control_answer hknown
  case forgotten => exact hhandle
  case passed_by =>
    intro action
    unfold controlCurrent
    cases hid : (r.course acts).1.current with
    | none => rfl
    | some i =>
      have hne : i ≠ id := by
        intro heq
        rw [hid, heq] at hcurrent
        exact hcurrent rfl
      exact get?_control_of_ne hne action

/-- **Handles outlive runs.** Once a run is over, whatever is done around the runner changes nothing
of it but its flags, and shows nothing of it but what the handles kept on it announce: they answer
and announce by the flags alone, as if the run went on. They leave it in peace only if it was
cancelled and is not paused. -/
theorem handles_outlive_runs (registry : Registry) (mappings : List Route) (root : String)
    (before : List Act) (id : String) (run : Run) :
    let r := ((fresh registry mappings root).course before).1
    Table.get? r.runs id = some run → (r.result? id).isSome = true →
      (∀ after, Outlived (r.course after).1 id run after (r.course after).2) ∧
      ((∀ after, seen id (r.course after).2 = [] ∧
          ∀ action, ((r.course after).1.control id action).2.1 = false) ↔
        run.state = .atPeace) := by
  intro r hrun hresult
  have htracks := (tracks_fresh registry mappings root).course before
  have hover : run.isOver = true := (result?_isSome_iff hrun).mp hresult
  have houtlived := htracks.outlived hrun hover
  refine ⟨houtlived, ?_, ?_⟩
  · intro hpeace
    apply RunState.eq_atPeace
    intro action
    have hanswer := (hpeace []).2 action
    rw [(houtlived []).answers] at hanswer
    simpa [handled, RunState.after] using hanswer
  · intro hpeace after
    obtain ⟨hstate, hsilent⟩ := RunState.rest_atPeace (handled id after)
    have hafter := houtlived after
    refine ⟨?_, fun action => ?_⟩
    · rw [hafter.announced, hpeace, hsilent]
      rfl
    · rw [hafter.answers, hpeace, hstate, RunState.act?_atPeace]
      rfl

/-- A course in which a run of no steps is over at once. -/
def emptyRun : List Act := [.begin "r" { name := "idle" } {}, .advance "r" ""]

/-- It is not in peace. -/
theorem handles_outlive_empty_run :
    ∃ run, Table.get? ((fresh [] [] "/").course emptyRun).1.runs "r" = some run ∧
      (((fresh [] [] "/").course emptyRun).1.result? "r").isSome = true ∧
      ¬ ∀ after, seen "r" (((fresh [] [] "/").course emptyRun).1.course after).2 = [] ∧
        ∀ action, ((((fresh [] [] "/").course emptyRun).1.course after).1.control "r" action).2.1 =
          false := by
  refine ⟨_, rfl, rfl, fun hpeace => ?_⟩
  have hstate := (handles_outlive_runs [] [] "/" emptyRun "r" _ rfl rfl).2.mp hpeace
  cases hstate

/-- A handle pauses it, and that is announced behind its end. -/
theorem ended_run_is_paused :
    ((fresh [] [] "/").course emptyRun).1.result? "r" = some (.ok .success) ∧
    (((fresh [] [] "/").course emptyRun).1.control "r" .pause).2.1 = true ∧
    (seen "r" ((fresh [] [] "/").course (emptyRun ++ [.control "r" .pause])).2).getLast? =
      some (.event ⟨"r", .pipelinePause⟩) :=
  ⟨rfl, rfl, rfl⟩

end Runner

end Workflow
