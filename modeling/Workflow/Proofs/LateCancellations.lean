import Workflow.Proofs.Cancellation
import Workflow.Proofs.ChainedRuns
import Workflow.Proofs.Itinerary

/- How a run ends that is cancelled on its way. The flag is looked at only in front of a step, so
   a run that has no step left to begin may succeed all the same. From the cancellation on,
   where the run is and what is told of its steps decide whether it will (`Run.Concludes`);
   `ends_of_cancelled_run` says it of the runs of a runner, and that a chain which waits for
   a run that has not succeeded ends there. -/
namespace Workflow

/-- Whether a signal tells that a step has failed. -/
def Signal.failsStep : Signal → Bool
  | .event ⟨_, .stepEnd _ _ success⟩ => !success
  | _ => false

/-- Whether no signal tells that a step has failed. -/
def Unfailing (shown : List Signal) : Prop := ∀ s ∈ shown, s.failsStep = false

theorem unfailing_nil : Unfailing [] := List.forall_mem_nil _

theorem unfailing_append (a b : List Signal) : Unfailing (a ++ b) ↔ Unfailing a ∧ Unfailing b :=
  List.forall_mem_append

theorem unfailing_concat {shown : List Signal} {s : Signal} (h : s.failsStep = false) :
    Unfailing (shown ++ [s]) ↔ Unfailing shown := by
  simp [Unfailing, or_imp, forall_and, h]

/-- Behind a step that failed there is a step of the document, or the failure of the run. -/
theorem next_of_failure (p : Pipeline) (i : Nat) :
    (∃ j, Run.next p i false = .head j ∧ j < p.steps.length) ∨
      Run.next p i false = .ending .failure := by
  simp only [Run.next, Bool.false_eq_true, if_false]
  split
  · exact .inr rfl
  · split
    · rename_i j hindex
      exact .inl ⟨j, rfl, (Pipeline.stepIndex?_eq_some_iff.mp hindex).lt⟩
    · exact .inr rfl

namespace Run

/-- Whether the run has no step left to begin unless one fails: it is in the last step of its
document or behind it. -/
def atLast (run : Run) : Bool :=
  match run.phase with
  | .head i => run.pipeline.steps.length ≤ i
  | .dispatching i _ _ | .awaiting i _ _ | .closing i _ => run.pipeline.steps.length ≤ i + 1
  | .ending _ | .finished _ => false

/-- Where a cancelled run is of which this has been shown since. It will have succeeded exactly if
it was at its last step and that step does not fail. -/
def Concludes (last : Prop) (run : Run) (shown : List Signal) : Prop :=
  match run.phase with
  | .head i => run.pipeline.steps.length ≤ i ↔ last ∧ Unfailing shown
  | .dispatching i _ _ | .awaiting i _ _ | .closing i _ =>
    Unfailing shown ∧ (run.pipeline.steps.length ≤ i + 1 ↔ last)
  | .ending status => status = .failure ∧ ¬ (last ∧ Unfailing shown)
  | .finished result =>
    (∃ status, result = .ok status) ∧ (result = .ok .success ↔ last ∧ Unfailing shown)

/-- Whether the run, if a step has stranded it, ends as a failure. -/
def Proper (run : Run) : Prop := ∀ status, run.phase = .ending status → status = .failure

section Concludes

variable {last : Prop} {run run' : Run} {shown : List Signal}

theorem Concludes.served {i : Nat} (hshown : Unfailing shown)
    (hlast : run.pipeline.steps.length ≤ i + 1 ↔ last) (count : Nat) :
    ({ run with executed := count, phase := next run.pipeline i true } : Run).Concludes last
      (shown ++ [run.announce (.stepEnd i (run.stepId i) true)]) := by
  have hall : Unfailing (shown ++ [run.announce (.stepEnd i (run.stepId i) true)]) :=
    (unfailing_concat rfl).mpr hshown
  show run.pipeline.steps.length ≤ i + 1 ↔ last ∧ Unfailing _
  rw [hlast, and_iff_left hall]

theorem Concludes.failed (i count : Nat) :
    ({ run with executed := count, phase := next run.pipeline i false } : Run).Concludes last
      (shown ++ [run.announce (.stepEnd i (run.stepId i) false)]) := by
  have hfails : ¬ Unfailing (shown ++ [run.announce (.stepEnd i (run.stepId i) false)]) := by
    intro hall
    have := hall _ (List.mem_append_right _ (List.mem_singleton_self _))
    cases this
  unfold Concludes
  rcases next_of_failure run.pipeline i with ⟨j, hnext, hj⟩ | hnext
  · simp only [hnext]
    exact iff_of_false (Nat.not_le.mpr hj) fun h => hfails h.2
  · simp only [hnext]
    exact ⟨trivial, fun h => hfails h.2⟩

theorem Concludes.advance {around : Surroundings} {signal : Signal}
    (h : run.Concludes last shown) (hc : run.state.cancelled = true)
    (ha : Advance around run run' signal) : run'.Concludes last (shown ++ [signal]) := by
  unfold Concludes at h
  cases ha with
  | success hp hpast =>
    rw [hp] at h
    refine ⟨⟨_, rfl⟩, ?_⟩
    rw [unfailing_concat (by rfl)]
    exact iff_of_true rfl (h.mp hpast)
  | @cancelled i s hp hs hflag =>
    rw [hp] at h
    have hpast : run.pipeline.steps.length ≤ i ↔ last ∧ Unfailing shown := h
    have hi : i < run.pipeline.steps.length := (List.getElem?_eq_some_iff.mp hs).1
    refine ⟨⟨_, rfl⟩, ?_⟩
    rw [unfailing_concat (by rfl), ← hpast]
    exact iff_of_false (by simp) (Nat.not_le.mpr hi)
  | refused _ _ hf _ => exact absurd hf (not_free hc)
  | control _ _ hf _ => exact absurd hf (not_free hc)
  | dispatch _ _ hf _ _ => exact absurd hf (not_free hc)
  | invoke hp =>
    rw [hp] at h
    exact ⟨(unfailing_concat rfl).mpr h.1, h.2⟩
  | served hp =>
    rw [hp] at h
    exact .served h.1 h.2 _
  | @close i success hp =>
    rw [hp] at h
    cases success with
    | true => exact .served h.1 h.2 _
    | false => exact .failed i _
  | ending hp =>
    rw [hp] at h
    obtain ⟨rfl, hnot⟩ := h
    refine ⟨⟨_, rfl⟩, ?_⟩
    rw [unfailing_concat (by rfl)]
    exact iff_of_false (by simp) hnot

theorem Concludes.answered {outcome : Outcome} (h : run.Concludes last shown)
    (ha : Answered outcome run run') : run'.Concludes last shown := by
  unfold Concludes at h
  cases ha with
  | @granted i intent left hp hgood =>
    rw [hp] at h
    unfold Concludes
    cases left <;> exact h
  | failed hp hbad =>
    rw [hp] at h
    exact h
  | idle => exact h

theorem Concludes.move (h : run.Concludes last shown) (hc : run.state.cancelled = true) (m : Move) :
    (run.move m).1.Concludes last (shown ++ (run.move m).2) := by
  have hm := run.moved m
  generalize run.move m = out at hm ⊢
  cases hm with
  | advance ha => exact h.advance hc ha
  | answer ha =>
    rw [List.append_nil]
    exact h.answered ha
  | @act action state ha =>
    -- the phase stays, and no action is the end of a step
    have hall : Unfailing (action.happening?.map run.announce).toList := by
      cases action <;> simp [Unfailing, ControlAction.happening?, announce, Signal.failsStep]
    have hsame : Unfailing (shown ++ (action.happening?.map run.announce).toList) ↔
        Unfailing shown := by
      rw [unfailing_append, and_iff_left hall]
    unfold Concludes at h ⊢
    dsimp only
    rw [hsame]
    exact h
  | nothing =>
    rw [List.append_nil]
    exact h

theorem Concludes.course (h : run.Concludes last []) (hc : run.state.cancelled = true)
    (moves : List Move) : (run.course moves).1.Concludes last (run.course moves).2 := by
  have hkept : ∀ (r : Run) (told : List Signal) (m : Move),
      r.state.cancelled = true ∧ r.Concludes last told →
        (r.move m).1.state.cancelled = true ∧ (r.move m).1.Concludes last (told ++ (r.move m).2) :=
    fun r told m ⟨hr, hat⟩ => ⟨(r.moved m).stays_cancelled hr, hat.move hr m⟩
  have hend := course_keeps (fun r told => r.state.cancelled = true ∧ r.Concludes last told) hkept
    ⟨hc, h⟩ moves
  simpa using hend.2

end Concludes

/-- A run that has not ended and of which nothing has been shown since. -/
theorem concludes_of_proper {run : Run} (h : run.Proper) (hover : run.isOver = false) :
    run.Concludes (run.atLast = true) [] := by
  unfold Concludes atLast
  cases hp : run.phase with
  | head i => simp [unfailing_nil]
  | dispatching i intent left => simp [unfailing_nil]
  | awaiting i intent left => simp [unfailing_nil]
  | closing i success => simp [unfailing_nil]
  | ending status => simp [h status hp]
  | finished result => simp [isOver, hp] at hover

theorem proper_move {run : Run} (h : run.Proper) (m : Move) : (run.move m).1.Proper := by
  have hm := run.moved m
  generalize run.move m = out at hm ⊢
  have hnext : ∀ (count i : Nat) (success : Bool),
      ({ run with executed := count, phase := next run.pipeline i success } : Run).Proper := by
    intro count i success status hending
    dsimp only at hending
    rcases next_cases run.pipeline i success with ⟨j, hgoes⟩ | hgoes
    · rw [hgoes] at hending
      cases hending
    · rw [hgoes] at hending
      cases hending
      rfl
  cases hm with
  | advance ha =>
    cases ha with
    | served | close => exact hnext _ _ _
    | success | cancelled | refused | control | dispatch | invoke | ending =>
      intro status hending
      cases hending
  | answer ha =>
    cases ha with
    | @granted i intent left hp hgood =>
      intro status hending
      cases left <;> cases hending
    | failed hp hbad =>
      intro status hending
      cases hending
    | idle => exact h
  | act ha => exact h
  | nothing => exact h

end Run

/-! ## Chains behind a run -/

/-- A chain that waits for a run is over when the run has not succeeded. -/
theorem Rehearsal.WatchStage.ended_of_unsuccessful {s : WatchStage} {id : String}
    (h : s.runner.result? id ≠ some (.ok .success)) :
    (s.ended id).2 = [] ∧ (s.ended id).1.world.requests = s.world.requests ∧
      Table.get? (s.ended id).1.world.waiting id = none := by
  cases hwaiting : Table.get? s.world.waiting id with
  | none =>
    unfold ended
    rw [hwaiting]
    exact ⟨rfl, rfl, hwaiting⟩
  | some chain =>
    have hfailed : false = true ↔ s.runner.result? id = some (.ok .success) := by simp [h]
    rw [ended_of_waiting hwaiting hfailed]
    exact ⟨rfl, rfl, Table.get?_erase_self _ _⟩

namespace Runner

/-- What is known of the end of a run that was cancelled as `atCancel`, when all this has been shown
of it since. -/
structure EndsCancelled (r : Runner) (id : String) (atCancel : Run) (shown : List Signal)
    (result : Except PipelineError RunStatus) : Prop where
  /-- It succeeds exactly if it had no step left and none has failed. -/
  success_iff : result = .ok .success ↔ atCancel.atLast = true ∧ Unfailing shown
  /-- Otherwise it is cancelled, or the step that it was in has failed. -/
  else_stopped : result ≠ .ok .success → result = .ok .cancelled ∨ result = .ok .failure
  /-- Nothing is asked for behind it then. -/
  no_chain : result ≠ .ok .success → ∀ s : Rehearsal.WatchStage, s.runner = r →
    (s.ended id).2 = [] ∧ (s.ended id).1.world.requests = s.world.requests ∧
      Table.get? (s.ended id).1.world.waiting id = none

theorem proper_of_course {r : Runner} (hk : r.Keyed) (h : r.runs = []) (acts : List Act) :
    ∀ id run, Table.get? (r.course acts).1.runs id = some run → run.Proper := by
  refine runs_keep hk ?_ (fun run m hrun => Run.proper_move hrun m) ?_ acts
  · intro r id pipeline options start status hending
    cases hending
  · intro id run hrun
    rw [h] at hrun
    cases hrun

theorem endsCancelled_of_concludes {r : Runner} {id : String} {atCancel : Run} (hk : r.Keyed)
    (hget : Table.get? r.runs id = some atCancel) (hc : atCancel.state.cancelled = true)
    (h : atCancel.Concludes (atCancel.atLast = true) []) {after : List Act}
    {result : Except PipelineError RunStatus}
    (hresult : (r.course after).1.result? id = some result) :
    EndsCancelled (r.course after).1 id atCancel (seen id (r.course after).2) result := by
  obtain ⟨hlater, hseen⟩ := course_seen hk hget after
  have hend := h.course hc (r.movesOf id after)
  unfold Run.Concludes at hend
  rw [(result?_eq_some_iff hlater result).mp hresult] at hend
  obtain ⟨⟨status, hstatus⟩, hsuccess⟩ := hend
  constructor
  case success_iff =>
    rw [hseen]
    exact hsuccess
  case else_stopped =>
    intro hnot
    rw [hstatus] at hnot ⊢
    cases status with
    | success => exact absurd rfl hnot
    | failure => exact .inr rfl
    | cancelled => exact .inl rfl
  case no_chain =>
    intro hnot s hs
    apply Rehearsal.WatchStage.ended_of_unsuccessful
    rw [hs, hresult]
    exact fun heq => hnot (Option.some.inj heq)

/-- **The ends of cancelled runs.** When a cancellation by a handle or by the runner has changed a
run that has not ended, then whatever is done afterwards, the run ends as a success only if it was
in its last step by then, or behind it, and no step has failed since. In any other case it ends as
cancelled or as a failure, and a chain that waits for it asks for nothing more. -/
theorem ends_of_cancelled_run (registry : Registry) (mappings : List Route) (root : String)
    (before : List Act) (id : String) :
    let r := ((fresh registry mappings root).course before).1
    ∀ r' event, r.result? id = none →
      r.control id .cancel = (r', true, event) ∨
        (r.current = some id ∧ r.controlCurrent .cancel = (r', true, event)) →
      ∃ atCancel, Table.get? r'.runs id = some atCancel ∧
        ∀ after result, (r'.course after).1.result? id = some result →
          EndsCancelled (r'.course after).1 id atCancel (seen id (r'.course after).2) result := by
  intro r r' event hopen h
  have hk : r.Keyed := keyed_course (keyed_fresh registry mappings root) before
  have hcontrol : r.control id .cancel = (r', true, event) := by
    rcases h with h | ⟨hcur, h⟩
    · exact h
    · simpa [controlCurrent, hcur] using h
  obtain ⟨hk', atCancel, hget, hc⟩ := control_cancel hk hcontrol
  -- the cancellation has left the run where it was
  obtain ⟨run, state, hrun, -, hr', -⟩ := control_of_true hcontrol
  have hsame : { run with state } = atCancel := by
    rw [hr', Table.get?_insert, if_pos rfl] at hget
    exact Option.some.inj hget
  have hover : run.isOver = false := by
    rw [← Bool.not_eq_true, ← result?_isSome_iff hrun, hopen]
    exact Bool.false_ne_true
  have hproper : run.Proper :=
    proper_of_course (keyed_fresh registry mappings root) rfl before id run hrun
  have hstart : atCancel.Concludes (atCancel.atLast = true) [] := by
    rw [← hsame]
    exact Run.concludes_of_proper hproper hover
  exact ⟨atCancel, hget, fun after result => endsCancelled_of_concludes hk' hget hc hstart⟩

/-- A pipeline of one step. -/
def single : Pipeline where
  name := "backup"
  steps := [{ id := some "copy", name := "backup.copy" }]

/-- A course in which its only step has been begun and its command called. -/
def copying : List Act := [.begin "r" single {}, .advance "r" "", .advance "r" ""]

/-- The command succeeds, and the run goes on as far as it can. -/
def copied : List Act := [.answer "r" { success := true }, .advance "r" "", .advance "r" ""]

/-- A run cancelled in its last step was at its last step, and no step of it failed. -/
theorem ends_of_single_run :
    ∃ r' event atCancel, ((fresh [] [] "/").course copying).1.result? "r" = none ∧
      ((fresh [] [] "/").course copying).1.control "r" .cancel = (r', true, event) ∧
      Table.get? r'.runs "r" = some atCancel ∧ atCancel.atLast = true ∧
      Unfailing (seen "r" (r'.course copied).2) := by
  obtain ⟨atCancel, hget, hends⟩ :=
    ends_of_cancelled_run [] [] "/" copying "r" _ _ rfl (.inl rfl)
  obtain ⟨hlast, hnone⟩ := (hends copied (.ok .success) rfl).success_iff.mp rfl
  exact ⟨_, _, atCancel, rfl, rfl, hget, hlast, hnone⟩

/-- A stage at which a chain waits for the run of a runner. -/
def awaited (runner : Runner) : Rehearsal.WatchStage where
  runner := runner
  world := {
    manager := .new (.ofConfig {} "/")
    tree := ⟨[], []⟩
    invoker := .scripted [] 0
    timestamp := ""
    waiting := [("r", ⟨0, ⟨"/backup.intent.json", .beginning, []⟩, some "prune.intent.json"⟩)] }

/-- Such a run succeeds although it was cancelled, and the chain that waits for it goes on. -/
theorem cancelled_run_succeeds :
    ∃ r' event, ((fresh [] [] "/").course copying).1.result? "r" = none ∧
      ((fresh [] [] "/").course copying).1.control "r" .cancel = (r', true, event) ∧
      (r'.course copied).1.result? "r" = some (.ok .success) ∧
      ((awaited (r'.course copied).1).ended "r").1.world.requests.map (·.2.pipeline) =
        ["/prune.intent.json"] :=
  ⟨_, _, rfl, rfl, rfl, by with_unfolding_all rfl⟩

end Runner

end Workflow
