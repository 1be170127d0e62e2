import Workflow.Proofs.Course

/- The events of a run. Apart from pauses and resumptions, they are the beginning with
   the pipeline, then the beginning and at once the end of each step that is done, then
   the end of the run. `Account` says how much of that has been told where the run is
   now, and every move keeps it (`account_move`), so it holds after every course of a
   runner (`events_of_run`). -/
namespace Workflow

/-- What a signal tells of the progress of a run; pauses, resumptions and invocations do not. -/
def Signal.progress? : Signal → Option Happening
  | .event ⟨_, .pipelinePause⟩ => none
  | .event ⟨_, .pipelineResume⟩ => none
  | .event e => some e.happening
  | .invoke _ => none

/-- What signals tell of the progress of a run. -/
def progress (signals : List Signal) : List Happening := signals.filterMap Signal.progress?

theorem progress_append (a b : List Signal) : progress (a ++ b) = progress a ++ progress b :=
  List.filterMap_append

theorem progress_invoke (i : Invocation) : progress [.invoke i] = [] := rfl

/-- A step that has been done, as it is told. -/
structure StepTale where
  index : Nat
  stepId : Option String
  intent : String
  success : Bool

/-- The beginning of a step, and right behind it the end. -/
def StepTale.happenings (t : StepTale) : List Happening :=
  [.stepStart t.index t.stepId t.intent, .stepEnd t.index t.stepId t.success]

/-- Whether this is told of a run that has begun and done so many steps of its pipeline. -/
def Told (p : Pipeline) (count : Nat) (told : List Happening) : Prop :=
  ∃ steps : List StepTale, told = .pipelineStart p :: steps.flatMap StepTale.happenings ∧
    steps.length = count ∧ ∀ t ∈ steps, ∃ s, p.steps[t.index]? = some s ∧ t.stepId = s.id

/-- Whether this is told of a run that has done so many steps and is in one more. -/
def Begun (p : Pipeline) (count index : Nat) (told : List Happening) : Prop :=
  ∃ before s name, Told p count before ∧ p.steps[index]? = some s ∧
    told = before ++ [.stepStart index s.id name]

/-- The status that the end of a run is announced with. -/
def endStatus : Except PipelineError RunStatus → RunStatus
  | .ok status => status
  | .error _ => .failure

/-- Whether this is told of a run that has done so many steps and has ended. -/
def Closed (p : Pipeline) (count : Nat) (status : RunStatus) (told : List Happening) : Prop :=
  ∃ before, Told p count before ∧ told = before ++ [.pipelineEnd (status == .success) status]

/-- What has been told of a run, by where it is. A run that was given up stands in front of the
step that cannot be compiled. -/
def Account (run : Run) (told : List Happening) : Prop :=
  match run.phase with
  | .head _ => Told run.pipeline run.executed told
  | .dispatching i _ _ => Begun run.pipeline run.executed i told
  | .awaiting i _ _ => Begun run.pipeline run.executed i told
  | .closing i _ => Begun run.pipeline run.executed i told
  | .ending _ => Told run.pipeline run.executed told
  | .finished result => Closed run.pipeline run.executed (endStatus result) told ∧
      ∀ e, result = .error e →
        ∃ (i : Nat) (s : Intent), run.pipeline.steps[i]? = some s ∧ run.scope.ready s = .error e

theorem told_start (p : Pipeline) : Told p 0 [.pipelineStart p] :=
  ⟨[], rfl, rfl, by simp⟩

/-- A step told to its end is one more step done. -/
theorem Begun.close {p : Pipeline} {count i : Nat} {told : List Happening}
    (h : Begun p count i told) (success : Bool) :
    Told p (count + 1) (told ++ [.stepEnd i ((p.steps[i]?).bind (·.id)) success]) := by
  obtain ⟨before, s, name, ⟨steps, rfl, hl, hs⟩, hi, rfl⟩ := h
  refine ⟨steps ++ [⟨i, s.id, name, success⟩], ?_, by simp [hl], ?_⟩
  · simp [StepTale.happenings, hi]
  · intro t ht
    rcases List.mem_append.mp ht with ht | ht
    · exact hs t ht
    · rw [List.mem_singleton] at ht
      exact ⟨s, by rw [ht]; exact hi, by rw [ht]⟩

theorem account_next {run : Run} {i : Nat} {success : Bool} {told : List Happening}
    (h : Told run.pipeline (run.executed + 1) told) :
    Account { run with executed := run.executed + 1, phase := Run.next run.pipeline i success }
      told := by
  -- wherever the run goes on, it stands between two steps or in front of its end
  unfold Run.next
  split
  · exact h
  · split
    · exact h
    · split <;> exact h

/-- What a move of a run shows carries the account on. -/
theorem account_advance {around : Surroundings} {run run' : Run} {signal : Signal}
    {told : List Happening} (h : Run.Advance around run run' signal) (ha : Account run told) :
    Account run' (told ++ progress [signal]) := by
  -- where the run was decides what has been told, and so which case of the account is at hand
  unfold Account at ha
  cases h with
  | success hp _ =>
    rw [hp] at ha
    exact ⟨⟨told, ha, rfl⟩, by simp⟩
  | cancelled hp _ _ =>
    rw [hp] at ha
    exact ⟨⟨told, ha, rfl⟩, by simp⟩
  | @refused i s e hp hs _ he =>
    rw [hp] at ha
    refine ⟨⟨told, ha, rfl⟩, ?_⟩
    rintro e' h
    cases h
    exact ⟨i, s, hs, he⟩
  | @control i s kind hp hs _ _ =>
    rw [hp] at ha
    exact ⟨told, s, s.name, ha, hs, rfl⟩
  | @dispatch i s compiled intent hp hs _ _ _ =>
    rw [hp] at ha
    exact ⟨told, s, intent.name, ha, hs, rfl⟩
  | invoke hp =>
    rw [hp] at ha
    rw [progress_invoke, List.append_nil]
    exact ha
  | served hp =>
    rw [hp] at ha
    exact account_next (ha.close true)
  | close hp =>
    rw [hp] at ha
    exact account_next (ha.close _)
  | ending hp =>
    rw [hp] at ha
    exact ⟨⟨told, ha, rfl⟩, by simp⟩

theorem account_answered {outcome : Outcome} {run run' : Run} {told : List Happening}
    (h : Run.Answered outcome run run') (ha : Account run told) : Account run' told := by
  unfold Account at ha
  cases h with
  | granted hp _ =>
    rw [hp] at ha
    unfold Account
    dsimp only
    split <;> rename_i hq <;> split at hq <;> cases hq <;> exact ha
  | failed hp _ =>
    rw [hp] at ha
    exact ha
  | idle _ => exact ha

theorem account_move {run : Run} {told : List Happening} (ha : Account run told) (m : Move) :
    Account (run.move m).1 (told ++ progress (run.move m).2) := by
  have hm := run.moved m
  generalize run.move m = out at hm ⊢
  cases hm with
  | advance h => exact account_advance h ha
  | answer h => simpa [progress] using account_answered h ha
  | @act action state h =>
    -- pauses and resumptions are no part of the progress, and a cancellation is not announced
    have hn : progress (action.happening?.map run.announce).toList = [] := by
      cases action <;> rfl
    rw [hn, List.append_nil]
    exact ha
  | nothing => simpa [progress] using ha

/-! ## Courses of a runner -/

/-- Whether a pipeline has the place that a run is to start at. -/
def StartPoint.Known (p : Pipeline) : StartPoint → Prop
  | .beginning => True
  | .step id => ∃ s ∈ p.steps, s.id = some id
  | .index i => i ≤ p.steps.length

theorem startIndex_of_known {p : Pipeline} {start : StartPoint} (h : start.Known p) :
    ∃ i, p.startIndex start = .ok i := by
  cases start with
  | beginning => exact ⟨0, rfl⟩
  | step id =>
    obtain ⟨s, hs, hid⟩ := h
    cases hf : p.stepIndex? id with
    | some i => exact ⟨i, by simp [Pipeline.startIndex, hf]⟩
    | none =>
      have := List.findIdx?_eq_none_iff.mp hf s hs
      simp [hid] at this
  | index i =>
    have hi : i ≤ p.steps.length := h
    exact ⟨i, by simp [Pipeline.startIndex, hi]⟩

theorem startIndex_of_unknown {p : Pipeline} {start : StartPoint} (h : ¬ start.Known p) :
    ∃ e, p.startIndex start = .error e := by
  cases start with
  | beginning => exact absurd trivial h
  | step id =>
    have hf : p.stepIndex? id = none := List.findIdx?_eq_none_iff.mpr fun s hs =>
      Bool.eq_false_iff.mpr fun hc => h ⟨s, hs, by simpa using hc⟩
    exact ⟨.noSuchStep id, by simp [Pipeline.startIndex, hf]⟩
  | index i =>
    have hi : ¬ i ≤ p.steps.length := h
    exact ⟨.noSuchIndex i, by simp [Pipeline.startIndex, hi]⟩

namespace Runner

/-- A run that has begun stays known, and nothing is seen of it before it has begun. -/
theorem unseen_before {r : Runner} {id : String} (hk : r.Keyed) {acts : List Act}
    (h : Table.get? (r.course acts).1.runs id = none) : seen id (r.course acts).2 = [] := by
  induction acts generalizing r with
  | nil => rfl
  | cons a rest ih =>
    -- a run that the first act begins would be known to the end
    have hn : Table.get? (r.perform a).1.runs id = none := by
      cases hr : Table.get? (r.perform a).1.runs id with
      | none => rfl
      | some run =>
        have := (course_seen (keyed_perform hk a) hr rest).1
        rw [show (r.course (a :: rest)).1 = ((r.perform a).1.course rest).1 from rfl, this] at h
        cases h
    have hs : seen id (r.perform a).2 = [] := by
      by_cases hb : ∃ pipeline options, a = .begin id pipeline options
      · obtain ⟨pipeline, options, rfl⟩ := hb
        rcases r.perform_begin id pipeline options with ⟨start, -, -, hr, -⟩ | ⟨-, hr⟩
        · rw [hr, Table.get?_insert, if_pos rfl] at hn
          cases hn
        · rw [hr]
          rfl
      · cases ha : r.moveOf? id a with
        | none => exact (perform_other hk ha fun p o h => absurd ⟨p, o, h⟩ hb).2
        | some m =>
          cases hr : Table.get? r.runs id with
          | none => rw [(perform_miss hr ha).2]; rfl
          | some run =>
            rw [(perform_seen hk hr a).1] at hn
            cases hn
    rw [show (r.course (a :: rest)).2 = (r.perform a).2 ++ ((r.perform a).1.course rest).2 from rfl,
      seen_append, hs, ih (keyed_perform hk a) h]
    rfl

/-- A run that is begun makes the moves of the acts after that, and shows what they show. -/
theorem course_of_begin {r : Runner} {before : List Act} {id : String} {p : Pipeline}
    {options : RunOptions} {start : Nat} (hk : r.Keyed)
    (hid : Table.get? (r.course before).1.runs id = none)
    (hs : p.startIndex options.start = .ok start) (after : List Act) :
    let begun := (r.course before).1.newRun id p options start
    let moves := ((r.course before).1.perform (.begin id p options)).1.movesOf id after
    Table.get? (r.course (before ++ .begin id p options :: after)).1.runs id =
        some (begun.course moves).1 ∧
      seen id (r.course (before ++ .begin id p options :: after)).2 =
        [.event ⟨id, .pipelineStart p⟩] ++ (begun.course moves).2 := by
  intro begun moves
  have hkb := keyed_course hk before
  rcases (r.course before).1.perform_begin id p options with ⟨start', -, hs', hr, hsig⟩ | ⟨hno, -⟩
  · obtain rfl : start = start' := by
      rw [hs] at hs'
      exact Except.ok.inj hs'
    have hrun : Table.get? ((r.course before).1.perform (.begin id p options)).1.runs id =
        some begun := by
      rw [hr, Table.get?_insert, if_pos rfl]
    obtain ⟨hget, hseen⟩ := course_seen (keyed_perform hkb _) hrun after
    constructor
    · rw [course_append]
      exact hget
    · have hsplit : seen id (r.course (before ++ .begin id p options :: after)).2 =
          [.event ⟨id, .pipelineStart p⟩] ++
            seen id ((((r.course before).1.perform (.begin id p options)).1.course after)).2 := by
        rw [course_append, seen_append, unseen_before hk hid, course, seen_append, hsig,
          seen_all (by simp [Signal.runId])]
        rfl
      rw [hsplit, hseen]
  · rcases hno with h | ⟨e, h⟩
    · simp [hid] at h
    · rw [hs] at h
      cases h

/-- What a run has when it is begun, and every move of it keeps, it has whatever is done before and
after that. -/
theorem kept_of_run {P : Run → List Signal → Prop}
    (hm : ∀ run shown m, P run shown → P (run.move m).1 (shown ++ (run.move m).2)) {r : Runner}
    {before : List Act} {id : String} {p : Pipeline} {options : RunOptions} {start : Nat}
    (hk : r.Keyed) (hid : Table.get? (r.course before).1.runs id = none)
    (hs : p.startIndex options.start = .ok start)
    (hp : P ((r.course before).1.newRun id p options start) [.event ⟨id, .pipelineStart p⟩])
    (after : List Act) :
    ∃ run, Table.get? (r.course (before ++ .begin id p options :: after)).1.runs id = some run ∧
      run.pipeline = p ∧ P run (seen id (r.course (before ++ .begin id p options :: after)).2) := by
  obtain ⟨hrun, hseen⟩ := course_of_begin hk hid hs after
  have hpipeline := (Run.course_frame ((r.course before).1.newRun id p options start)
    (((r.course before).1.perform (.begin id p options)).1.movesOf id after)).2.1
  refine ⟨_, hrun, hpipeline, ?_⟩
  rw [hseen]
  exact Run.course_keeps P hm hp _

/-- The account of a run that is begun, whatever is done before and after that. -/
theorem account_of_run {r : Runner} {before : List Act} {id : String} {p : Pipeline}
    {options : RunOptions} {start : Nat} (hk : r.Keyed)
    (hid : Table.get? (r.course before).1.runs id = none)
    (hs : p.startIndex options.start = .ok start) (after : List Act) :
    ∃ run, Table.get? (r.course (before ++ .begin id p options :: after)).1.runs id = some run ∧
      run.pipeline = p ∧
      Account run (progress (seen id (r.course (before ++ .begin id p options :: after)).2)) := by
  refine kept_of_run (P := fun run shown => Account run (progress shown)) ?_ hk hid hs
    (told_start p) after
  intro run shown m ha
  rw [progress_append]
  exact account_move ha m

/-- How a run ended is what its phase says. -/
theorem result?_eq_some_iff {r : Runner} {id : String} {run : Run}
    (h : Table.get? r.runs id = some run) (result : Except PipelineError RunStatus) :
    r.result? id = some result ↔ run.phase = .finished result := by
  unfold result?
  rw [h]
  cases hp : run.phase <;> simp [hp]

/-- The account of a run, read off from how it ended. -/
theorem account_of_result {r : Runner} {id : String} {run : Run} {told : List Happening}
    (h : Table.get? r.runs id = some run) (ha : Account run told) :
    (r.result? id = none →
      Told run.pipeline run.executed told ∨ ∃ i, Begun run.pipeline run.executed i told) ∧
    ∀ result, r.result? id = some result →
      Closed run.pipeline run.executed (endStatus result) told ∧
        ∀ e, result = .error e →
          ∃ (i : Nat) (s : Intent), run.pipeline.steps[i]? = some s ∧ run.scope.ready s = .error e := by
  refine ⟨?_, ?_⟩
  · intro hn
    unfold Account at ha
    cases hp : run.phase with
    | finished result =>
      rw [(result?_eq_some_iff h result).mpr hp] at hn
      cases hn
    | head i => rw [hp] at ha; exact .inl ha
    | ending status => rw [hp] at ha; exact .inl ha
    | dispatching i intent left => rw [hp] at ha; exact .inr ⟨i, ha⟩
    | awaiting i intent left => rw [hp] at ha; exact .inr ⟨i, ha⟩
    | closing i success => rw [hp] at ha; exact .inr ⟨i, ha⟩
  · intro result hr
    have hp := (result?_eq_some_iff h result).mp hr
    unfold Account at ha
    rw [hp] at ha
    exact ha

/-- A run in front of a step that cannot be compiled ends with the error, and the end is all that
is told. -/
theorem perform_refused {r : Runner} {id trace : String} {run : Run} {i : Nat} {s : Intent}
    {e : PipelineError} (hk : r.Keyed) (h : Table.get? r.runs id = some run)
    (hp : run.phase = .head i) (hs : run.pipeline.steps[i]? = some s) (hf : run.state = {})
    (he : run.scope.ready s = .error e) :
    (r.perform (.advance id trace)).1.result? id = some (.error e) ∧
      (r.perform (.advance id trace)).2 = [.event ⟨id, .ended .failure⟩] := by
  have hm : r.moveOf? id (.advance id trace) = some (.advance ⟨r.registry, r.mappings, trace⟩) := by
    simp [moveOf?]
  have hmove : run.move (.advance ⟨r.registry, r.mappings, trace⟩) =
      ({ run with phase := .finished (.error e) }, [run.announce (.ended .failure)]) := by
    simp [Run.move, Run.advance?_of_advance (.refused hp hs hf he)]
  obtain ⟨hrun, -⟩ := perform_seen hk h (.advance id trace)
  obtain ⟨hsig, -⟩ := perform_hit hk h hm
  rw [hm, Option.toList_some, Run.course_singleton, hmove] at hrun
  rw [hmove] at hsig
  refine ⟨(result?_eq_some_iff hrun _).mpr rfl, ?_⟩
  rw [hsig, Run.announce, hk id run h]

/-- The next move of a run can be made if it is neither held back nor waits nor is over. -/
theorem advance?_isSome_iff {r : Runner} {id trace : String} {run : Run}
    (h : Table.get? r.runs id = some run) :
    (r.advance? id trace).isSome = true ↔ run.isHeld = false ∧
      (∀ i intent left, run.phase ≠ .awaiting i intent left) ∧ run.isOver = false := by
  have hsome : (r.advance? id trace).isSome = true ↔
      ¬ run.advance? ⟨r.registry, r.mappings, trace⟩ = none := by
    cases hmove : run.advance? ⟨r.registry, r.mappings, trace⟩ <;> simp [advance?, h, hmove]
  rw [hsome, Run.advance?_eq_none_iff]
  simp

/-- The runner has a move for every run that has not ended, is not held back and does not wait. -/
theorem advance?_of_open {r : Runner} {id : String} {run : Run}
    (h : Table.get? r.runs id = some run) (ho : r.result? id = none) (trace : String) :
    run.isHeld = true ∨ (∃ i intent left, run.phase = .awaiting i intent left) ∨
      (r.advance? id trace).isSome = true := by
  have hopen : run.isOver = false := by
    unfold Run.isOver
    split
    · rename_i result hp
      rw [(result?_eq_some_iff h result).mpr hp] at ho
      cases ho
    · rfl
  cases hheld : run.isHeld with
  | true => exact .inl rfl
  | false =>
    by_cases hwaits : ∃ i intent left, run.phase = .awaiting i intent left
    · exact .inr (.inl hwaits)
    · refine .inr (.inr ((advance?_isSome_iff h).mpr ⟨hheld, fun i intent left hp => ?_, hopen⟩))
      exact hwaits ⟨i, intent, left, hp⟩

/-- **The events of a run.** Whatever is done around a runner before and after a run is asked for:
if the pipeline lacks the start point, nothing begins and nothing is told. Otherwise all that is
told of the run's progress is its beginning with the pipeline and then pairs of the beginning and
the end of a step, the last of which may be open; when the run has ended, as many pairs as it has
executed steps and then one end with the status that is returned. A step that cannot be compiled
is not told of: the run ends there with a failure and returns the error. A run that has not ended
can go on, unless it is paused in front of a step or waits for a handler. -/
theorem events_of_run (registry : Registry) (mappings : List Route) (root : String)
    (before : List Act) (id : String) (p : Pipeline) (options : RunOptions) (after : List Act)
    (hid : Table.get? ((fresh registry mappings root).course before).1.runs id = none) :
    let r := ((fresh registry mappings root).course before).1
    let history := (fresh registry mappings root).course (before ++ .begin id p options :: after)
    let told := progress (seen id history.2)
    (¬ options.start.Known p →
      (∃ e, r.begin id p options = .error e) ∧ r.perform (.begin id p options) = (r, [])) ∧
    (options.start.Known p → ∃ run,
      Table.get? history.1.runs id = some run ∧ run.pipeline = p ∧
      (history.1.result? id = none → Told p run.executed told ∨ ∃ i, Begun p run.executed i told) ∧
      (∀ status, history.1.result? id = some (.ok status) → Closed p run.executed status told) ∧
      (∀ e, history.1.result? id = some (.error e) → Closed p run.executed .failure told ∧
        ∃ (i : Nat) (s : Intent), p.steps[i]? = some s ∧ run.scope.ready s = .error e) ∧
      (∀ i s e trace, run.phase = .head i → p.steps[i]? = some s → run.state = {} →
        run.scope.ready s = .error e →
        (history.1.perform (.advance id trace)).1.result? id = some (.error e) ∧
        (history.1.perform (.advance id trace)).2 = [.event ⟨id, .ended .failure⟩]) ∧
      (∀ trace, history.1.result? id = none → run.isHeld = true ∨
        (∃ i intent left, run.phase = .awaiting i intent left) ∨
        (history.1.advance? id trace).isSome = true)) := by
  intro r history told
  have hk := keyed_fresh registry mappings root
  refine ⟨?_, ?_⟩
  · intro hu
    obtain ⟨e, he⟩ := startIndex_of_unknown hu
    refine ⟨⟨e, begin_error he id⟩, ?_⟩
    rcases r.perform_begin id p options with ⟨start, -, hs, -⟩ | ⟨-, h⟩
    · rw [he] at hs
      cases hs
    · exact h
  · intro hknown
    obtain ⟨start, hs⟩ := startIndex_of_known hknown
    obtain ⟨run, hrun, hp, ha⟩ := account_of_run hk hid hs after
    obtain ⟨hopen, hended⟩ := account_of_result hrun ha
    rw [hp] at hopen hended
    refine ⟨run, hrun, hp, hopen, ?_, ?_, ?_, ?_⟩
    · intro status hr
      exact (hended _ hr).1
    · intro e hr
      exact ⟨(hended _ hr).1, (hended _ hr).2 e rfl⟩
    · intro i s e trace hhead hstep hfree hready
      exact perform_refused (keyed_course hk _) hrun hhead (by rw [hp]; exact hstep) hfree hready
    · intro trace hn
      exact advance?_of_open hrun hn trace

/-- A pipeline whose second step lacks the message of a commit. -/
def messageless : Pipeline where
  name := "release"
  steps := [
    { id := some "note", name := "system.setVar"
      payload := .obj [("name", .str "version"), ("value", .str "2")] },
    { id := some "commit", name := "git.commit" }]

/-- A run of it that is paused and resumed on its way. -/
def pausedOnce : List Act :=
  [.advance "r" "", .control "r" .pause, .advance "r" "", .advance "r" "", .control "r" .resume,
    .advance "r" ""]

theorem events_of_messageless_run :
    Table.get? ((fresh [] [] "/").course [.begin "q" messageless {}]).1.runs "r" = none ∧
    ∃ run, Table.get? ((fresh [] [] "/").course
        ([.begin "q" messageless {}] ++ .begin "r" messageless {} :: pausedOnce)).1.runs "r" =
          some run ∧
      Closed messageless run.executed .failure (progress (seen "r" ((fresh [] [] "/").course
        ([.begin "q" messageless {}] ++ .begin "r" messageless {} :: pausedOnce)).2)) := by
  refine ⟨rfl, ?_⟩
  obtain ⟨run, hrun, -, -, -, hended, -⟩ := (events_of_run [] [] "/" [.begin "q" messageless {}] "r"
    messageless {} pausedOnce rfl).2 trivial
  exact ⟨run, hrun, (hended (.missingField "git.commit" "message") (by with_unfolding_all rfl)).1⟩

end Runner

end Workflow
