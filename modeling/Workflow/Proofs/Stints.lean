import Workflow.Proofs.Cancellation
import Workflow.Proofs.Itinerary

/- What a run does in its steps, and what the steps see. A stint is one stay of a run in a
   step: the step is compiled once, in the scope of the moment, and from that, from what
   its commands are looked up in once it has been announced, and from the answers of the
   handlers follows all that is told of it (`Stint.trace`). The scope of a
   stint is that of the beginning with the changes that the stints before it have made, in
   their order (`Scope.replay`). Every move of a run keeps this (`chronicle_move`), and
   `stints_of_run` says it of the runs of a runner. -/
namespace Workflow

/-! ## What is told of steps -/

/-- What can happen in a step of a run. -/
inductive Incident where
  /-- The step was announced, with these surroundings. -/
  | began (around : Surroundings) (event : Event)
  /-- Its commands were looked up, in these surroundings. -/
  | looked (around : Surroundings)
  | invoked (invocation : Invocation)
  /-- The handler of the last invoked command gave its outcome. -/
  | answered (outcome : Outcome)
  | ended (event : Event)

namespace Incident

/-- What is shown of an incident; answers and lookups are not. -/
def signal? : Incident → Option Signal
  | .began _ e => some (.event e)
  | .looked _ => none
  | .invoked i => some (.invoke i)
  | .answered _ => none
  | .ended e => some (.event e)

/-- The invocation that was made. -/
def invocation? : Incident → Option Invocation
  | .invoked i => some i
  | _ => none

/-- The outcome that was given. -/
def answer? : Incident → Option Outcome
  | .answered o => some o
  | _ => none

end Incident

/-- What a signal that was shown in some surroundings tells of a step. -/
def Signal.incident? (around : Surroundings) : Signal → Option Incident
  | .event ⟨id, .stepStart i s name⟩ => some (.began around ⟨id, .stepStart i s name⟩)
  | .event ⟨id, .stepEnd i s success⟩ => some (.ended ⟨id, .stepEnd i s success⟩)
  | .invoke i => some (.invoked i)
  | .event _ => none

namespace Run

/-- The lookup that the next move of a run begins with, if the commands of its step are not
known. -/
def lookup? (run : Run) (around : Surroundings) : Option Incident :=
  match run.phase with
  | .dispatching _ _ none => some (.looked around)
  | _ => none

/-- What a move of a run tells of a step: what it looks up and shows, or an answer that was waited
for. -/
def told (run : Run) : Move → List Incident
  | .advance around =>
    (run.lookup? around).toList ++
      ((run.advance? around).bind fun next => next.2.incident? around).toList
  | .answer outcome =>
    match run.phase with
    | .awaiting _ _ _ => [.answered outcome]
    | _ => []
  | .act _ => []

/-- All that moves of a run tell of its steps. -/
def incidents (run : Run) : List Move → List Incident
  | [] => []
  | m :: rest => run.told m ++ (run.move m).1.incidents rest

/-- A run that cannot go on looks nothing up. -/
theorem lookup?_of_stuck {run : Run} {around : Surroundings} (h : run.advance? around = none) :
    run.lookup? around = none := by
  unfold advance? at h
  unfold lookup?
  split
  · rename_i hp
    rw [hp] at h
    cases h
  · rfl

/-- What a run tells that has announced a step: it looks up the commands, and goes on. -/
theorem told_of_announced {run : Run} {i : Nat} {intent : Intent}
    (hp : run.phase = .dispatching i intent none) (around : Surroundings) :
    ∃ x, run.told (.advance around) = [.looked around, x] := by
  unfold told lookup? advance?
  rw [hp]
  cases hfound : around.resolve intent with
  | nil => exact ⟨_, by simp [hfound, serve, close, announce, Signal.incident?]; rfl⟩
  | cons r left => exact ⟨_, by simp [hfound, serve, Signal.incident?]; rfl⟩

end Run

/-! ## Stints -/

/-- How resolutions are dispatched when these answers come: one after the other, until one
fails. -/
def serving (invocation : Resolution → Invocation) (ended : Bool → Incident) :
    List Resolution → List Outcome → List Incident
  | [], _ => [ended true]
  | r :: _, [] => [.invoked (invocation r)]
  | r :: left, o :: answers =>
    .invoked (invocation r) :: .answered o ::
      if o.success then serving invocation ended left answers else [ended false]

/-- A stay of a run in a step. -/
structure Stint where
  index : Nat
  step : Intent
  /-- What the step saw when it was begun. -/
  scope : Scope
  /-- What surrounded the run then. -/
  around : Surroundings
  /-- What its commands were looked up in, as soon as they were. -/
  looked : Option Surroundings := none
  /-- What came of its invocations. -/
  answers : List Outcome := []

namespace Stint

/-- The intent that is dispatched when the step is compiled. -/
def intent (v : Stint) (runId : String) (compiled : Intent) : Intent :=
  compiled.stamped v.scope.dryRun v.around.trace runId

/-- The resolutions of the dispatched intent, as soon as they were looked up. -/
def found (v : Stint) (intent : Intent) : Option (List Resolution) :=
  v.looked.map (·.resolve intent)

/-- The invocation of a resolution: built from the dispatched intent and the directory in which
the step was begun. -/
def invocation (v : Stint) (runId : String) (intent : Intent) (r : Resolution) : Invocation where
  runId := runId
  intent := intent
  command := r.command
  payload := r.payload intent
  source := r.source
  cwd := v.scope.cwd
  dryRun := intent.asksDryRun

/-- The end of the step. -/
def ended (v : Stint) (runId : String) (success : Bool) : Incident :=
  .ended ⟨runId, .stepEnd v.index v.step.id success⟩

/-- How resolutions are dispatched when these answers come. -/
def serve (v : Stint) (runId : String) (intent : Intent) :
    List Resolution → List Outcome → List Incident :=
  serving (v.invocation runId intent) (v.ended runId)

/-- What is to be told of a stint from the lookup on. -/
def dispatch (v : Stint) (runId : String) (intent : Intent) : List Incident :=
  match v.looked with
  | none => []
  | some around => .looked around :: v.serve runId intent (around.resolve intent) v.answers

/-- All that is to be told of a stint, with the answers that it got. -/
def trace (runId : String) (v : Stint) : List Incident :=
  match v.scope.ready v.step with
  | .error _ => []
  | .ok (.control _) =>
    [.began v.around ⟨runId, .stepStart v.index v.step.id v.step.name⟩, v.ended runId true]
  | .ok (.dispatch compiled) =>
    let intent := v.intent runId compiled
    .began v.around ⟨runId, .stepStart v.index v.step.id intent.name⟩ :: v.dispatch runId intent

/-- Whether the step has ended. -/
def Over (runId : String) (v : Stint) : Prop := ∃ success, v.ended runId success ∈ v.trace runId

/-- How many handlers succeeded before one failed or nothing more was heard. -/
def granted (v : Stint) : Nat := (v.answers.takeWhile (·.success)).length

end Stint

/-- A change to what the steps of a run see. -/
inductive Change where
  | assigned (name value : String)
  | exported (vars : Table String)
  | moved (path : String)

/-- The changes that a stint made, in order: an assignment or a move of its own, or what its
handlers exported when they succeeded. -/
def Stint.changes (v : Stint) : List Change :=
  match v.scope.ready v.step with
  | .ok (.control (.setVar name value)) => [.assigned name value]
  | .ok (.control (.setCwd path)) => [.moved path]
  | .ok (.control _) => []
  | .ok (.dispatch _) => (v.answers.filter (·.success)).map fun o => .exported o.vars
  | .error _ => []

namespace Scope

/-- The scope after a change. An absolute path takes the place of the directory. -/
def changed (scope : Scope) : Change → Scope
  | .assigned name value => { scope with vars := Table.insert name value scope.vars }
  | .exported vars => { scope with vars := Table.insertAll scope.vars vars }
  | .moved path =>
    { scope with cwd := if Path.isAbsolute path then path else Path.join scope.cwd path }

/-- The scope after the changes that stints made, one after the other. -/
def replay (scope : Scope) (stints : List Stint) : Scope :=
  (stints.flatMap Stint.changes).foldl changed scope

@[simp] theorem replay_nil (scope : Scope) : scope.replay [] = scope := rfl

theorem replay_concat (scope : Scope) (stints : List Stint) (v : Stint) :
    scope.replay (stints ++ [v]) = v.changes.foldl changed (scope.replay stints) := by
  simp [replay]

end Scope

/-! ## What follows from the answers -/

namespace Stint

variable (v : Stint) (runId : String) (intent : Intent)

/-- The invocations that are made are those of the first resolutions: one more than succeeded. -/
theorem serve_invocations (found : List Resolution) (answers : List Outcome) :
    (v.serve runId intent found answers).filterMap Incident.invocation? =
      (found.take ((answers.takeWhile (·.success)).length + 1)).map
        (v.invocation runId intent) := by
  unfold serve
  induction found generalizing answers with
  | nil => rfl
  | cons r left ih =>
    cases answers with
    | nil => rfl
    | cons o answers =>
      cases hs : o.success with
      | true =>
        simpa [serving, hs, List.filterMap_cons, Incident.invocation?, List.map_take]
          using ih answers
      | false => simp [serving, hs, Incident.invocation?, ended]

/-- Resolutions are served with success exactly when all of them are answered with success. -/
theorem serve_success_iff (found : List Resolution) (answers : List Outcome) :
    v.ended runId true ∈ v.serve runId intent found answers ↔
      found.length ≤ (answers.takeWhile (·.success)).length := by
  unfold serve
  induction found generalizing answers with
  | nil => simp [serving]
  | cons r left ih =>
    cases answers with
    | nil => simp [serving, ended]
    | cons o answers =>
      cases hs : o.success with
      | true => simpa [serving, hs, ended] using ih answers
      | false => simp [serving, hs, ended]

/-- They are served without success exactly when one of them is answered with a failure. -/
theorem serve_failure_iff (found : List Resolution) (answers : List Outcome) :
    v.ended runId false ∈ v.serve runId intent found answers ↔
      (answers.takeWhile (·.success)).length < found.length ∧
        (answers.takeWhile (·.success)).length < answers.length := by
  unfold serve
  induction found generalizing answers with
  | nil => simp [serving, ended]
  | cons r left ih =>
    cases answers with
    | nil => simp [serving, ended]
    | cons o answers =>
      cases hs : o.success with
      | true => simpa [serving, hs, ended] using ih answers
      | false => simp [serving, hs, ended]

end Stint

/-- Whether a stint dispatches an intent. -/
def Stint.Dispatches (v : Stint) (runId : String) (intent : Intent) : Prop :=
  ∃ compiled, v.scope.ready v.step = .ok (.dispatch compiled) ∧ intent = v.intent runId compiled

section Dispatches

variable {v : Stint} {runId : String} {intent : Intent}

theorem Stint.trace_of_ready (runId : String) {ready : ReadyStep}
    (h : v.scope.ready v.step = .ok ready) :
    ∃ name rest, v.trace runId =
      .began v.around ⟨runId, .stepStart v.index v.step.id name⟩ :: rest := by
  unfold Stint.trace
  rw [h]
  cases ready with
  | control kind => exact ⟨_, _, rfl⟩
  | dispatch compiled => exact ⟨_, _, rfl⟩

theorem Stint.Dispatches.trace_eq (h : v.Dispatches runId intent) :
    v.trace runId = .began v.around ⟨runId, .stepStart v.index v.step.id intent.name⟩ ::
      v.dispatch runId intent := by
  obtain ⟨compiled, hready, rfl⟩ := h
  unfold Stint.trace
  rw [hready]

theorem Stint.Dispatches.invocations (h : v.Dispatches runId intent) :
    (v.trace runId).filterMap Incident.invocation? =
      (((v.found intent).getD []).take (v.granted + 1)).map (v.invocation runId intent) := by
  rw [h.trace_eq]
  unfold Stint.dispatch Stint.found
  cases v.looked with
  | none => rfl
  | some around => exact v.serve_invocations runId intent (around.resolve intent) v.answers

theorem Stint.Dispatches.ended_iff (h : v.Dispatches runId intent) (success : Bool) :
    v.ended runId success ∈ v.trace runId ↔ ∃ found, v.found intent = some found ∧
      v.ended runId success ∈ v.serve runId intent found v.answers := by
  rw [h.trace_eq]
  unfold Stint.dispatch Stint.found
  cases v.looked <;> simp [Stint.ended]

theorem Stint.Dispatches.success_iff (h : v.Dispatches runId intent) :
    v.ended runId true ∈ v.trace runId ↔
      ∃ found, v.found intent = some found ∧ found.length ≤ v.granted := by
  rw [h.ended_iff true]
  simp only [v.serve_success_iff]
  rfl

theorem Stint.Dispatches.failure_iff (h : v.Dispatches runId intent) :
    v.ended runId false ∈ v.trace runId ↔ ∃ found, v.found intent = some found ∧
      v.granted < found.length ∧ v.granted < v.answers.length := by
  rw [h.ended_iff false]
  simp only [v.serve_failure_iff]
  rfl

end Dispatches

/-! ## The chronicle of a run -/

namespace Stint

/-- A stint with more answers. -/
def hearing (v : Stint) (more : List Outcome) : Stint := { v with answers := v.answers ++ more }

/-- A stint whose commands are looked up. -/
def looking (v : Stint) (around : Surroundings) : Stint := { v with looked := some around }

/-- How it goes on from an invocation when these answers come. -/
def await (v : Stint) (runId : String) (intent : Intent) (left : List Resolution) :
    List Outcome → List Incident
  | [] => []
  | o :: more =>
    .answered o :: if o.success then v.serve runId intent left more else [v.ended runId false]

/-- Whether the step has ended, and all the answers are to its invocations. -/
def Done (runId : String) (v : Stint) : Prop :=
  v.Over runId ∧ (v.trace runId).filterMap Incident.answer? = v.answers

theorem serve_cons (v : Stint) (runId : String) (intent : Intent) (r : Resolution)
    (left : List Resolution) (more : List Outcome) :
    v.serve runId intent (r :: left) more =
      .invoked (v.invocation runId intent r) :: v.await runId intent left more := by
  cases more <;> rfl

theorem hearing_nil (v : Stint) : v.hearing [] = v := by simp [hearing]

theorem hearing_append (v : Stint) (first later : List Outcome) :
    (v.hearing first).hearing later = v.hearing (first ++ later) := by
  simp [hearing]

end Stint

/-- Whether each stint was begun in the scope that those before it left behind. -/
def InScope (initial : Scope) (stints : List Stint) : Prop :=
  ∀ before v after, stints = before ++ v :: after → v.scope = initial.replay before

/-- What is known of the last stint of a run, of which this has been shown. -/
structure Within (runId : String) (i : Nat) (before : List Stint) (v : Stint)
    (told shown : List Incident) : Prop where
  here : v.index = i
  told : told = before.flatMap (Stint.trace runId) ++ shown
  heard : shown.filterMap Incident.answer? = v.answers
  done : ∀ w ∈ before, w.Done runId

/-- Whether the last stint of a run dispatches an intent, and this has yet to be told of it when
more answers come. -/
def Run.Serves (run : Run) (i : Nat) (intent : Intent) (stints : List Stint)
    (told : List Incident) (still : Stint → List Outcome → List Incident) : Prop :=
  ∃ before v shown, stints = before ++ [v] ∧ Within run.id i before v told shown ∧
    v.Dispatches run.id intent ∧ v.scope.cwd = run.scope.cwd ∧
    ∀ more, (v.hearing more).trace run.id = shown ++ still v more

/-- Whether the last stint of a run is to dispatch an intent, and its commands have not been looked
up. -/
def Run.Announces (run : Run) (i : Nat) (intent : Intent) (stints : List Stint)
    (told : List Incident) : Prop :=
  ∃ before v, stints = before ++ [v] ∧ Within run.id i before v told (v.trace run.id) ∧
    v.Dispatches run.id intent ∧ v.scope.cwd = run.scope.cwd ∧ v.looked = none

/-- Where a run is of whose steps so much has been told. -/
def Run.Tells (run : Run) (stints : List Stint) (told : List Incident) : Prop :=
  match run.phase with
  | .head _ | .ending _ | .finished _ =>
    told = stints.flatMap (Stint.trace run.id) ∧ ∀ v ∈ stints, v.Done run.id
  | .dispatching i intent none => run.Announces i intent stints told
  | .dispatching i intent (some left) =>
    run.Serves i intent stints told fun v => v.serve run.id intent left
  | .awaiting i intent left =>
    run.Serves i intent stints told fun v => v.await run.id intent left
  | .closing i success => ∃ before v shown, stints = before ++ [v] ∧
      Within run.id i before v told shown ∧ v.trace run.id = shown ++ [v.ended run.id success]

/-- What is known of a run that has made these stints, and of whose steps so much has been told. -/
structure Chronicle (initial : Scope) (run : Run) (stints : List Stint) (told : List Incident) :
    Prop where
  scopes : InScope initial stints
  step : ∀ v ∈ stints, run.pipeline.steps[v.index]? = some v.step ∧
    ∃ ready, v.scope.ready v.step = .ok ready
  scope : run.scope = initial.replay stints
  tells : run.Tells stints told

/-- What has yet to be told of the stints of a run: at most one thing, which the next move tells; if
there is nothing, the last stint is over, waits for an answer, or has yet to look up its
commands. -/
structure Pending (run : Run) (stints : List Stint) (told : List Incident)
    (later : Option Incident) : Prop where
  left : stints.flatMap (Stint.trace run.id) = told ++ later.toList
  next : ∀ x, later = some x → ∀ around, run.told (.advance around) = [x]
  waits : later = none → ∀ v, stints.getLast? = some v →
    v.Over run.id ∨ (∀ o, run.told (.answer o) = [.answered o]) ∨
      v.looked = none ∧ ∀ around, ∃ x, run.told (.advance around) = [.looked around, x]

section Chronicle

variable {initial : Scope} {run run' : Run} {stints before : List Stint} {v v' : Stint}
  {told shown : List Incident}

theorem InScope.concat (h : InScope initial stints) (hv : v.scope = initial.replay stints) :
    InScope initial (stints ++ [v]) := by
  intro before w after hsplit
  rcases List.eq_nil_or_concat after with rfl | ⟨rest, last, rfl⟩
  · obtain ⟨rfl, rfl⟩ := List.append_inj' hsplit rfl |>.imp id List.singleton_inj.mp
    exact hv
  · have hinner : stints ++ [v] = (before ++ w :: rest) ++ [last] := by simp [hsplit]
    obtain ⟨rfl, -⟩ := List.append_inj' hinner rfl
    exact h before w rest rfl

theorem InScope.init (h : InScope initial (before ++ [v])) :
    InScope initial before ∧ v.scope = initial.replay before := by
  constructor
  · intro first w after hsplit
    exact h first w (after ++ [v]) (by simp [hsplit])
  · exact h before v [] rfl

theorem Chronicle.go (h : Chronicle initial run stints told)
    (hpipeline : run'.pipeline = run.pipeline) (hscope : run'.scope = run.scope)
    {told' : List Incident} (htells : run'.Tells stints told') :
    Chronicle initial run' stints told' where
  scopes := h.scopes
  step := hpipeline ▸ h.step
  scope := hscope.trans h.scope
  tells := htells

theorem Chronicle.enter (h : Chronicle initial run stints told)
    (hstep : run.pipeline.steps[v.index]? = some v.step) {ready : ReadyStep}
    (hready : v.scope.ready v.step = .ok ready) (hv : v.scope = run.scope)
    (hpipeline : run'.pipeline = run.pipeline)
    (hscope : run'.scope = v.changes.foldl Scope.changed run.scope) {told' : List Incident}
    (htells : run'.Tells (stints ++ [v]) told') :
    Chronicle initial run' (stints ++ [v]) told' where
  scopes := h.scopes.concat (hv.trans h.scope)
  step w hw := by
    rw [hpipeline]
    rcases List.mem_append.mp hw with hw | hw
    · exact h.step w hw
    · obtain rfl := List.mem_singleton.mp hw
      exact ⟨hstep, ready, hready⟩
  scope := by rw [hscope, Scope.replay_concat, h.scope]
  tells := htells

/-- What an answer changes, when the step is dispatched. -/
theorem changes_hearing {runId : String} {intent : Intent} (hv : v.Dispatches runId intent)
    (o : Outcome) :
    (v.hearing [o]).changes = v.changes ++ if o.success then [.exported o.vars] else [] := by
  obtain ⟨compiled, hready, -⟩ := hv
  have hready' : (v.hearing [o]).scope.ready (v.hearing [o]).step = .ok (.dispatch compiled) :=
    hready
  simp only [Stint.changes, hready, hready']
  cases hs : o.success <;> simp [Stint.hearing, hs]

/-- The last stint may turn into another one in the same step and the same scope. -/
theorem Chronicle.turn (h : Chronicle initial run (before ++ [v]) told)
    (hsame : v'.index = v.index ∧ v'.step = v.step ∧ v'.scope = v.scope)
    (hpipeline : run'.pipeline = run.pipeline)
    (hscope : run'.scope = initial.replay (before ++ [v'])) {told' : List Incident}
    (htells : run'.Tells (before ++ [v']) told') :
    Chronicle initial run' (before ++ [v']) told' where
  scopes := h.scopes.init.1.concat (hsame.2.2.trans h.scopes.init.2)
  step w hw := by
    rw [hpipeline]
    rcases List.mem_append.mp hw with hw | hw
    · exact h.step w (List.mem_append_left _ hw)
    · obtain rfl := List.mem_singleton.mp hw
      rw [hsame.1, hsame.2.1, hsame.2.2]
      exact h.step v (by simp)
  scope := hscope
  tells := htells

theorem Chronicle.hear (h : Chronicle initial run (before ++ [v]) told) {intent : Intent}
    (hv : v.Dispatches run.id intent) (o : Outcome) (hpipeline : run'.pipeline = run.pipeline)
    (hscope : run'.scope =
      (if o.success then [.exported o.vars] else []).foldl Scope.changed run.scope)
    {told' : List Incident} (htells : run'.Tells (before ++ [v.hearing [o]]) told') :
    Chronicle initial run' (before ++ [v.hearing [o]]) told' := by
  refine h.turn ?_ hpipeline ?_ htells
  · exact ⟨rfl, rfl, rfl⟩
  rw [hscope, Scope.replay_concat, changes_hearing hv, List.foldl_append, h.scope,
    Scope.replay_concat]

theorem Within.done_of_ended {runId : String} {i : Nat} {success : Bool}
    (h : Within runId i before v told shown)
    (htrace : v.trace runId = shown ++ [v.ended runId success]) : v.Done runId := by
  constructor
  · exact ⟨success, by simp [htrace]⟩
  · rw [htrace, List.filterMap_append, h.heard]
    simp [Stint.ended, Incident.answer?]

theorem tells_next {i : Nat} {success : Bool} (h : Within run.id i before v told shown)
    (htrace : v.trace run.id = shown ++ [v.ended run.id success])
    (hid : run'.id = run.id) (hphase : run'.phase = Run.next run.pipeline i success) :
    run'.Tells (before ++ [v]) (told ++ [v.ended run.id success]) := by
  have hover : told ++ [v.ended run.id success] =
      (before ++ [v]).flatMap (Stint.trace run.id) ∧ ∀ w ∈ before ++ [v], w.Done run.id := by
    refine ⟨by simp [h.told, htrace], fun w hw => ?_⟩
    rcases List.mem_append.mp hw with hw | hw
    · exact h.done w hw
    · obtain rfl := List.mem_singleton.mp hw
      exact h.done_of_ended htrace
  unfold Run.Tells
  rw [hphase, hid]
  rcases Run.next_cases run.pipeline i success with ⟨j, hnext⟩ | hnext
  · rw [hnext]
    exact hover
  · rw [hnext]
    exact hover

/-- The end of the step that a run is in is the end of its last stint. -/
theorem Chronicle.ended_eq (h : Chronicle initial run (before ++ [v]) told) {i : Nat}
    (hi : v.index = i) (success : Bool) :
    Incident.ended ⟨run.id, .stepEnd i (run.stepId i) success⟩ = v.ended run.id success := by
  have hstepId : run.stepId i = v.step.id := by
    rw [Run.stepId, ← hi, (h.step v (by simp)).1]
    rfl
  rw [hstepId, ← hi]
  rfl

theorem Chronicle.finish (h : Chronicle initial run stints told)
    (hover : told = stints.flatMap (Stint.trace run.id) ∧ ∀ v ∈ stints, v.Done run.id)
    (result : Except PipelineError RunStatus) :
    Chronicle initial { run with phase := .finished result } stints (told ++ []) := by
  rw [List.append_nil]
  exact h.go (by rfl) (by rfl) hover

/-- A run that does a step itself has changed its scope when it has begun. -/
theorem chronicle_control {i : Nat} {s : Intent} {kind : StepKind} {around : Surroundings}
    (h : Chronicle initial run stints told)
    (hover : told = stints.flatMap (Stint.trace run.id) ∧ ∀ v ∈ stints, v.Done run.id)
    (hs : run.pipeline.steps[i]? = some s) (hready : run.scope.ready s = .ok (.control kind)) :
    Chronicle initial { run with scope := run.scope.after kind, phase := .closing i true }
      (stints ++ [⟨i, s, run.scope, around, none, []⟩])
      (told ++ [.began around ⟨run.id, .stepStart i s.id s.name⟩]) := by
  refine h.enter hs hready (by rfl) (by rfl) ?_ ?_
  · simp only [Stint.changes, hready]
    cases kind with
    -- a path that is absolute is what it comes to when it is joined
    | setCwd path =>
      have hjoin : Path.isAbsolute path = true → Path.join run.scope.cwd path = path := by
        intro habsolute
        simp [Path.join, habsolute]
      simpa [Scope.after, Scope.changed] using hjoin
    | setVar name value => rfl
    | _ => rfl
  · refine ⟨stints, _, [.began around ⟨run.id, .stepStart i s.id s.name⟩], rfl, ?_, ?_⟩
    · exact ⟨rfl, by rw [hover.1], rfl, hover.2⟩
    · simp [Stint.trace, hready]

/-- A run that begins a step to dispatch it has its commands yet to look up. -/
theorem chronicle_dispatch {i : Nat} {s compiled : Intent} {around : Surroundings}
    (h : Chronicle initial run stints told)
    (hover : told = stints.flatMap (Stint.trace run.id) ∧ ∀ v ∈ stints, v.Done run.id)
    (hs : run.pipeline.steps[i]? = some s)
    (hready : run.scope.ready s = .ok (.dispatch compiled)) {intent : Intent}
    (hstamped : intent = compiled.stamped run.scope.dryRun around.trace run.id) :
    Chronicle initial { run with phase := .dispatching i intent none }
      (stints ++ [⟨i, s, run.scope, around, none, []⟩])
      (told ++ [.began around ⟨run.id, .stepStart i s.id intent.name⟩]) := by
  refine h.enter hs hready (by rfl) (by rfl) ?_ ?_
  · simp [Stint.changes, hready]
  · have hdispatches : Stint.Dispatches ⟨i, s, run.scope, around, none, []⟩ run.id intent :=
      ⟨compiled, hready, hstamped⟩
    refine ⟨stints, _, rfl, ?_, hdispatches, rfl, rfl⟩
    rw [hdispatches.trace_eq]
    exact ⟨rfl, by rw [hover.1]; rfl, rfl, hover.2⟩

/-! What is told of the last stint while its step is dispatched. -/

theorem Chronicle.announces (h : Chronicle initial run stints told) {i : Nat} {intent : Intent}
    (hp : run.phase = .dispatching i intent none) : run.Announces i intent stints told := by
  have htells := h.tells
  unfold Run.Tells at htells
  rwa [hp] at htells

theorem Chronicle.serves (h : Chronicle initial run stints told) {i : Nat} {intent : Intent}
    {left : List Resolution} (hp : run.phase = .dispatching i intent (some left)) :
    run.Serves i intent stints told fun v => v.serve run.id intent left := by
  have htells := h.tells
  unfold Run.Tells at htells
  rwa [hp] at htells

theorem Chronicle.awaits (h : Chronicle initial run stints told) {i : Nat} {intent : Intent}
    {left : List Resolution} (hp : run.phase = .awaiting i intent left) :
    run.Serves i intent stints told fun v => v.await run.id intent left := by
  have htells := h.tells
  unfold Run.Tells at htells
  rwa [hp] at htells

/-- When the commands of an announced step are looked up, all of them are left. -/
theorem chronicle_lookup {i : Nat} {intent : Intent} (around : Surroundings)
    (hp : run.phase = .dispatching i intent none) (h : Chronicle initial run stints told) :
    ∃ stints', Chronicle initial
      { run with phase := .dispatching i intent (some (around.resolve intent)) } stints'
      (told ++ [.looked around]) := by
  obtain ⟨before, v, rfl, hwithin, hdispatches, hcwd, hlooked⟩ := h.announces hp
  have hlooking : (v.looking around).Dispatches run.id intent := hdispatches
  refine ⟨before ++ [v.looking around], h.turn ?_ (by rfl) ?_ ?_⟩
  · exact ⟨rfl, rfl, rfl⟩
  · exact h.scope.trans (by simp only [Scope.replay_concat]; rfl)
  · refine ⟨before, _, v.trace run.id ++ [.looked around], rfl, ?_, hlooking, hcwd, ?_⟩
    · constructor
      case here => exact hwithin.here
      case told => rw [hwithin.told, List.append_assoc]
      case heard => simp [hwithin.heard, Incident.answer?, Stint.looking]
      case done => exact hwithin.done
    · intro more
      -- until its commands are looked up a stint hears nothing
      have hsilent : v.answers = [] := by
        rw [← hwithin.heard, hdispatches.trace_eq, Stint.dispatch, hlooked]
        rfl
      have hthen : ((v.looking around).hearing more).Dispatches run.id intent := hdispatches
      rw [hthen.trace_eq, hdispatches.trace_eq, Stint.dispatch, Stint.dispatch, hlooked]
      simp only [Stint.hearing, Stint.looking, hsilent]
      rfl

/-- Looked up before or now, the commands of a step are known when the first one left is to be
invoked. -/
theorem chronicle_known {i : Nat} {intent : Intent} {known : Option (List Resolution)}
    (around : Surroundings) (hp : run.phase = .dispatching i intent known)
    (h : Chronicle initial run stints told) :
    ∃ stints', Chronicle initial
      { run with phase := .dispatching i intent (some (known.getD (around.resolve intent))) }
      stints' (told ++ (run.lookup? around).toList) := by
  cases known with
  | none =>
    have hlookup : run.lookup? around = some (.looked around) := by rw [Run.lookup?, hp]
    rw [hlookup]
    exact chronicle_lookup around hp h
  | some left =>
    have hlookup : run.lookup? around = none := by rw [Run.lookup?, hp]
    have hsame : { run with phase := .dispatching i intent (some left) } = run := by
      rw [← hp]
    rw [hlookup]
    refine ⟨stints, ?_⟩
    simpa [hsame] using h

theorem chronicle_invoke {i : Nat} {intent : Intent} {r : Resolution} {left : List Resolution}
    (hp : run.phase = .dispatching i intent (some (r :: left)))
    (h : Chronicle initial run stints told) :
    Chronicle initial { run with phase := .awaiting i intent left } stints
      (told ++ [.invoked (run.invocation intent r)]) := by
  obtain ⟨before, v, shown, rfl, hwithin, hdispatches, hcwd, hstill⟩ := h.serves hp
  have hinvocation : run.invocation intent r = v.invocation run.id intent r := by
    simp [Run.invocation, Stint.invocation, hcwd]
  refine h.go (by rfl) (by rfl) ?_
  refine ⟨before, v, shown ++ [.invoked (run.invocation intent r)], rfl, ?_, hdispatches, hcwd, ?_⟩
  · constructor
    case here => exact hwithin.here
    case told => rw [hwithin.told, List.append_assoc]
    case heard => simp [hwithin.heard, Incident.answer?]
    case done => exact hwithin.done
  · intro more
    have hcons := v.serve_cons run.id intent r left more
    rw [hstill more, hinvocation]
    dsimp only
    rw [hcons, List.append_assoc]
    rfl

/-- The end of a step is all that has yet to be told of it. -/
theorem chronicle_close {i : Nat} {success : Bool} (h : Chronicle initial run stints told)
    (hclosing : ∃ before v shown, stints = before ++ [v] ∧ Within run.id i before v told shown ∧
      v.trace run.id = shown ++ [v.ended run.id success]) :
    Chronicle initial
      { run with executed := run.executed + 1, phase := Run.next run.pipeline i success } stints
      (told ++ [.ended ⟨run.id, .stepEnd i (run.stepId i) success⟩]) := by
  obtain ⟨before, v, shown, rfl, hwithin, htrace⟩ := hclosing
  rw [h.ended_eq hwithin.here]
  exact h.go (by rfl) (by rfl) (tells_next hwithin htrace (by rfl) (by rfl))

theorem chronicle_served {i : Nat} {intent : Intent}
    (hp : run.phase = .dispatching i intent (some [])) (h : Chronicle initial run stints told) :
    Chronicle initial
      { run with executed := run.executed + 1, phase := Run.next run.pipeline i true } stints
      (told ++ [.ended ⟨run.id, .stepEnd i (run.stepId i) true⟩]) := by
  obtain ⟨before, v, shown, rfl, hwithin, -, -, hstill⟩ := h.serves hp
  have htrace := hstill []
  rw [Stint.hearing_nil] at htrace
  exact chronicle_close h ⟨before, v, shown, rfl, hwithin, htrace⟩

theorem chronicle_advance {around : Surroundings} {signal : Signal}
    (hmove : Run.Advance around run run' signal) (h : Chronicle initial run stints told) :
    ∃ stints', Chronicle initial run' stints'
      (told ++ ((run.lookup? around).toList ++ (signal.incident? around).toList)) := by
  have htells := h.tells
  unfold Run.Tells at htells
  -- the phase that a move starts from says what has been told of the last stint
  cases hmove with
  | success hp _ | cancelled hp _ _ | refused hp _ _ _ | ending hp =>
    rw [hp] at htells
    rw [Run.lookup?, hp]
    exact ⟨stints, h.finish htells _⟩
  | control hp hs _ hready =>
    rw [hp] at htells
    rw [Run.lookup?, hp]
    exact ⟨_, chronicle_control h htells hs hready⟩
  | dispatch hp hs _ hready hstamped =>
    rw [hp] at htells
    rw [Run.lookup?, hp]
    exact ⟨_, chronicle_dispatch h htells hs hready hstamped⟩
  | invoke hp hcommands =>
    obtain ⟨stints', hknown⟩ := chronicle_known around hp h
    rw [hcommands] at hknown
    have hgone := chronicle_invoke rfl hknown
    rw [List.append_assoc] at hgone
    exact ⟨stints', hgone⟩
  | served hp hcommands =>
    obtain ⟨stints', hknown⟩ := chronicle_known around hp h
    rw [hcommands] at hknown
    have hgone := chronicle_served rfl hknown
    rw [List.append_assoc] at hgone
    exact ⟨stints', hgone⟩
  | close hp =>
    rw [hp] at htells
    rw [Run.lookup?, hp]
    exact ⟨stints, chronicle_close h htells⟩

theorem Within.hear {runId : String} {i : Nat} (h : Within runId i before v told shown)
    (o : Outcome) :
    Within runId i before (v.hearing [o]) (told ++ [.answered o]) (shown ++ [.answered o]) where
  here := h.here
  told := by rw [h.told, List.append_assoc]
  heard := by simp [h.heard, Incident.answer?, Stint.hearing]
  done := h.done

/-- A success lets its variables in, and the commands left are served as before. -/
theorem chronicle_granted {i : Nat} {intent : Intent} {left : List Resolution} {o : Outcome}
    (hp : run.phase = .awaiting i intent left) (hgood : o.success = true)
    (h : Chronicle initial run stints told) :
    ∃ stints', Chronicle initial
      { run with
        scope := { run.scope with vars := Table.insertAll run.scope.vars o.vars }
        phase := if left.isEmpty then .closing i true else .dispatching i intent (some left) }
      stints' (told ++ [.answered o]) := by
  obtain ⟨before, v, shown, rfl, hwithin, hdispatches, hcwd, hstill⟩ := h.awaits hp
  have hstill' : ∀ more, ((v.hearing [o]).hearing more).trace run.id =
      (shown ++ [.answered o]) ++ v.serve run.id intent left more := by
    intro more
    -- to hear one answer and then others is to hear them all
    rw [Stint.hearing_append, List.singleton_append, hstill]
    simp [Stint.await, hgood]
  refine ⟨before ++ [v.hearing [o]], h.hear hdispatches o (by rfl) ?_ ?_⟩
  · rw [if_pos hgood]
    rfl
  · cases left with
    | nil =>
      have htrace := hstill' []
      rw [Stint.hearing_nil] at htrace
      exact ⟨before, _, _, rfl, hwithin.hear o, htrace⟩
    | cons r rest =>
      exact ⟨before, _, _, rfl, hwithin.hear o, hdispatches, hcwd, hstill'⟩

/-- A failure changes nothing, and nothing more is dispatched. -/
theorem chronicle_failed {i : Nat} {intent : Intent} {left : List Resolution} {o : Outcome}
    (hp : run.phase = .awaiting i intent left) (hbad : o.success = false)
    (h : Chronicle initial run stints told) :
    ∃ stints', Chronicle initial { run with phase := .closing i false } stints'
      (told ++ [.answered o]) := by
  obtain ⟨before, v, shown, rfl, hwithin, hdispatches, hcwd, hstill⟩ := h.awaits hp
  refine ⟨before ++ [v.hearing [o]], h.hear hdispatches o (by rfl) ?_ ?_⟩
  · simp [hbad]
  · refine ⟨before, _, _, rfl, hwithin.hear o, ?_⟩
    rw [hstill [o], List.append_assoc]
    simp only [Stint.await, hbad]
    rfl

theorem chronicle_move (h : Chronicle initial run stints told) (m : Move) :
    ∃ stints', Chronicle initial (run.move m).1 stints' (told ++ run.told m) := by
  cases m with
  | advance around =>
    cases hnext : run.advance? around with
    | none =>
      have hlookup : run.lookup? around = none := Run.lookup?_of_stuck hnext
      exact ⟨stints, by simpa [Run.move, Run.told, hnext, hlookup] using h⟩
    | some next =>
      have hgone := chronicle_advance (Run.advance_of_advance? hnext) h
      simpa [Run.move, Run.told, hnext] using hgone
  | answer o =>
    have hanswer := run.answered o
    show ∃ stints', Chronicle initial (run.answer o) stints' _
    generalize run.answer o = after at hanswer ⊢
    cases hanswer with
    | granted hp hgood => simpa [Run.told, hp] using chronicle_granted hp hgood h
    | failed hp hbad => simpa [Run.told, hp] using chronicle_failed hp hbad h
    | idle hbusy =>
      have hnone : run.told (.answer o) = [] := by
        show (match run.phase with | .awaiting _ _ _ => [Incident.answered o] | _ => []) = _
        split
        · rename_i hp
          exact absurd hp (hbusy _ _ _)
        · rfl
      rw [hnone]
      exact ⟨stints, by simpa using h⟩
  | act action =>
    -- an action tells nothing of a step and changes nothing but the flags
    cases hact : run.state.act? action with
    | none => exact ⟨stints, by simpa [Run.move, Run.told, hact] using h⟩
    | some state =>
      have hsame : Chronicle initial { run with state } stints told :=
        h.go (by rfl) (by rfl) h.tells
      exact ⟨stints, by simpa [Run.move, Run.told, hact] using hsame⟩

/-- The chronicle of a run that begins in front of a step. -/
theorem chronicle_course {i : Nat} (hp : run.phase = .head i) (moves : List Move) :
    ∃ stints, Chronicle run.scope (run.course moves).1 stints (run.incidents moves) := by
  have hall : ∀ {r : Run} {stints : List Stint} {told : List Incident} (moves : List Move),
      Chronicle run.scope r stints told →
        ∃ stints', Chronicle run.scope (r.course moves).1 stints' (told ++ r.incidents moves) := by
    intro r stints told moves h
    induction moves generalizing r stints told with
    | nil => exact ⟨stints, by simpa [Run.incidents] using h⟩
    | cons m rest ih =>
      obtain ⟨stints', h'⟩ := chronicle_move h m
      obtain ⟨stints'', h''⟩ := ih h'
      exact ⟨stints'', by simpa [Run.course, Run.incidents] using h''⟩
  -- in front of its first step a run has made no stint
  have hfirst : Chronicle run.scope run [] [] := by
    refine ⟨by simp [InScope], by simp, rfl, ?_⟩
    unfold Run.Tells
    rw [hp]
    simp
  simpa using hall moves hfirst

theorem pending_of_left {i : Nat} {x : Incident} (h : Within run.id i before v told shown)
    (htrace : v.trace run.id = shown ++ [x])
    (hnext : ∀ around, run.told (.advance around) = [x]) :
    Pending run (before ++ [v]) told (some x) where
  left := by simp [h.told, htrace]
  next := by
    rintro y ⟨⟩
    exact hnext
  waits := by simp

theorem Chronicle.pending (h : Chronicle initial run stints told) :
    ∃ later, Pending run stints told later := by
  have htells := h.tells
  unfold Run.Tells at htells
  -- in front of a step all is told; within one, it is the next event or the next answer
  cases hp : run.phase with
  | head | ending | finished =>
    rw [hp] at htells
    obtain ⟨htold, hdone⟩ := htells
    refine ⟨none, by simp [htold], by simp, fun _ v hv => .inl ?_⟩
    exact (hdone v (List.mem_of_getLast? hv)).1
  | dispatching i intent known =>
    cases known with
    | none =>
      obtain ⟨before, v, rfl, hwithin, -, -, hlooked⟩ := h.announces hp
      refine ⟨none, by simp [hwithin.told], by simp, fun _ w hw => .inr (.inr ?_)⟩
      obtain rfl : v = w := by simpa using hw
      exact ⟨hlooked, run.told_of_announced hp⟩
    | some left =>
      obtain ⟨before, v, shown, rfl, hwithin, -, hcwd, hstill⟩ := h.serves hp
      have htrace := hstill []
      rw [Stint.hearing_nil] at htrace
      cases left with
      | nil =>
        refine ⟨_, pending_of_left hwithin htrace fun around => ?_⟩
        rw [← h.ended_eq hwithin.here]
        simp only [Run.told, Run.lookup?, Run.advance?, hp]
        rfl
      | cons r rest =>
        refine ⟨_, pending_of_left hwithin htrace fun around => ?_⟩
        simp [Run.told, Run.lookup?, Run.advance?, Run.serve, hp, Signal.incident?, Run.invocation,
          Stint.invocation, hcwd]
  | awaiting i intent left =>
    obtain ⟨before, v, shown, rfl, hwithin, -, -, hstill⟩ := h.awaits hp
    have htrace : v.trace run.id = shown := by
      simpa [Stint.hearing_nil, Stint.await] using hstill []
    refine ⟨none, by simp [hwithin.told, htrace], by simp, fun _ w _ => .inr (.inl fun o => ?_)⟩
    simp [Run.told, hp]
  | closing i success =>
    rw [hp] at htells
    obtain ⟨before, v, shown, rfl, hwithin, htrace⟩ := htells
    refine ⟨_, pending_of_left hwithin htrace fun around => ?_⟩
    rw [← h.ended_eq hwithin.here]
    simp only [Run.told, Run.lookup?, Run.advance?, hp]
    rfl

/-- All that was heard in a stint was told of it, and only the last one may not be over. -/
theorem Chronicle.done (h : Chronicle initial run stints told) :
    (∀ v ∈ stints, (v.trace run.id).filterMap Incident.answer? = v.answers) ∧
      ∀ v ∈ stints.dropLast, v.Over run.id := by
  have htells := h.tells
  unfold Run.Tells at htells
  have hall : ∀ {i : Nat} {before : List Stint} {v : Stint} {shown left : List Incident},
      Within run.id i before v told shown → v.trace run.id = shown ++ left →
      left.filterMap Incident.answer? = [] →
      (∀ w ∈ before ++ [v], (w.trace run.id).filterMap Incident.answer? = w.answers) ∧
        ∀ w ∈ (before ++ [v]).dropLast, w.Over run.id := by
    intro i before v shown left hwithin htrace hleft
    rw [List.dropLast_concat]
    refine ⟨fun w hw => ?_, fun w hw => (hwithin.done w hw).1⟩
    rcases List.mem_append.mp hw with hw | hw
    · exact (hwithin.done w hw).2
    · obtain rfl := List.mem_singleton.mp hw
      rw [htrace, List.filterMap_append, hwithin.heard, hleft, List.append_nil]
  cases hp : run.phase with
  | head | ending | finished =>
    rw [hp] at htells
    refine ⟨fun v hv => (htells.2 v hv).2, fun v hv => ?_⟩
    exact (htells.2 v (List.dropLast_subset _ hv)).1
  | dispatching i intent known =>
    cases known with
    | none =>
      obtain ⟨before, v, rfl, hwithin, -, -, -⟩ := h.announces hp
      exact hall hwithin (List.append_nil _).symm rfl
    | some left =>
      obtain ⟨before, v, shown, rfl, hwithin, -, -, hstill⟩ := h.serves hp
      refine hall hwithin (v.hearing_nil ▸ hstill []) ?_
      cases left <;> rfl
  | awaiting i intent left =>
    obtain ⟨before, v, shown, rfl, hwithin, -, -, hstill⟩ := h.awaits hp
    exact hall hwithin (v.hearing_nil ▸ hstill []) rfl
  | closing i success =>
    rw [hp] at htells
    obtain ⟨before, v, shown, rfl, hwithin, htrace⟩ := htells
    exact hall hwithin htrace rfl

end Chronicle

/-! ## Courses of a runner -/

/-- What moves of a run tell of its steps is what they show of them, and the answers. -/
theorem incidents_signals (run : Run) (moves : List Move) :
    (run.incidents moves).filterMap Incident.signal? = ofSteps (run.course moves).2 := by
  have hsignal : ∀ (around : Surroundings) (signal : Signal),
      (signal.incident? around).toList.filterMap Incident.signal? = ofSteps [signal] := by
    intro around signal
    cases signal with
    | invoke i => rfl
    | event e =>
      obtain ⟨id, happening⟩ := e
      cases happening <;> rfl
  have hmove : ∀ (run : Run) (m : Move),
      (run.told m).filterMap Incident.signal? = ofSteps (run.move m).2 := by
    intro run m
    cases m with
    | advance around =>
      -- a lookup shows nothing
      have hlookup : (run.lookup? around).toList.filterMap Incident.signal? = [] := by
        unfold Run.lookup?
        split <;> rfl
      cases hnext : run.advance? around with
      | none => simp [Run.told, Run.move, hnext, hlookup, ofSteps]
      | some next =>
        have hshown := hsignal around next.2
        simpa [Run.told, Run.move, hnext, hlookup] using hshown
    | answer o =>
      unfold Run.told
      cases run.phase <;> rfl
    | act action =>
      simp only [Run.told, Run.move]
      cases run.state.act? action with
      | none => rfl
      | some state => cases action <;> rfl
  induction moves generalizing run with
  | nil => rfl
  | cons m rest ih =>
    simp only [Run.incidents, Run.course, List.filterMap_append, ofSteps_append, hmove, ih]

namespace Runner

/-- What is known of the steps of a run that has made these stints, and of which so much has been
told. -/
structure Stayed (p : Pipeline) (id : String) (initial : Scope) (run : Run) (stints : List Stint)
    (told : List Incident) : Prop where
  /-- Each stint is to a step of the document, and compiles it once, in the scope that the stints
  before it leave behind. -/
  compiled : ∀ before v after, stints = before ++ v :: after →
    p.steps[v.index]? = some v.step ∧ v.scope = initial.replay before ∧
      ∃ ready, v.scope.ready v.step = .ok ready
  /-- The next step would see what all of them leave behind. -/
  scope : run.scope = initial.replay stints
  /-- Nothing is told of the steps but the traces of the stints. -/
  told : ∃ later, Pending run stints told later
  /-- All answers are to invocations of the stints, and every stint but the last is over. -/
  answered : ∀ v ∈ stints, (v.trace id).filterMap Incident.answer? = v.answers
  closed : ∀ v ∈ stints.dropLast, v.Over id
  /-- As soon as they are looked up, the resolutions are dispatched in order up to the first that
  fails, all from one intent. -/
  in_order : ∀ v ∈ stints, ∀ intent, v.Dispatches id intent →
    (v.trace id).filterMap Incident.invocation? =
      (((v.found intent).getD []).take (v.granted + 1)).map (v.invocation id intent)
  /-- A dispatched step is a success if all of them succeed, and a failure if one fails. -/
  success_iff : ∀ v ∈ stints, ∀ intent, v.Dispatches id intent →
    (v.ended id true ∈ v.trace id ↔
      ∃ found, v.found intent = some found ∧ found.length ≤ v.granted) ∧
    (v.ended id false ∈ v.trace id ↔ ∃ found, v.found intent = some found ∧
      v.granted < found.length ∧ v.granted < v.answers.length)

theorem stayed_of_chronicle {p : Pipeline} {id : String} {initial : Scope} {run : Run}
    {stints : List Stint} {told : List Incident} (h : Chronicle initial run stints told)
    (hid : run.id = id) (hp : run.pipeline = p) : Stayed p id initial run stints told := by
  subst hid hp
  obtain ⟨hanswered, hover⟩ := h.done
  constructor
  case compiled =>
    intro before v after hsplit
    obtain ⟨hstep, hready⟩ := h.step v (by simp [hsplit])
    exact ⟨hstep, h.scopes before v after hsplit, hready⟩
  case scope => exact h.scope
  case told => exact h.pending
  case answered => exact hanswered
  case closed => exact hover
  case in_order => exact fun v _ intent hv => hv.invocations
  case success_iff => exact fun v _ intent hv => ⟨hv.success_iff, hv.failure_iff⟩

/-- **What the steps of a run see.** Whatever is done around a runner before and after a run is
begun, the run makes stints in its steps. Each compiles its step once, in the scope of the beginning
with all that the stints before it assigned, exported and moved; it dispatches what the step
resolves to once it has been announced, in order and from that one intent, until a command fails. -/
theorem stints_of_run (registry : Registry) (mappings : List Route) (root : String)
    (before : List Act) (id : String) (p : Pipeline) (options : RunOptions) (start : Nat)
    (after : List Act)
    (hid : Table.get? ((fresh registry mappings root).course before).1.runs id = none)
    (hstart : options.start.Begins p start) :
    let r := ((fresh registry mappings root).course before).1
    let history := (fresh registry mappings root).course (before ++ .begin id p options :: after)
    let initial : Scope := ⟨options.vars, options.cwd.getD root, options.dryRun⟩
    let told := (r.newRun id p options start).incidents
      ((r.perform (.begin id p options)).1.movesOf id after)
    ∃ run stints, Table.get? history.1.runs id = some run ∧
      told.filterMap Incident.signal? = ofSteps (seen id history.2) ∧
      Stayed p id initial run stints told := by
  intro r history initial told
  have hs := startIndex_eq_ok_iff.mpr hstart
  obtain ⟨hrun, hseen⟩ := course_of_begin (keyed_fresh registry mappings root) hid hs after
  have hroot : r.workspaceRoot = root := (course_setting _ before).2
  have hscope : (r.newRun id p options start).scope = initial := by
    rw [newRun, hroot]
  have hhead : (r.newRun id p options start).phase = .head start := rfl
  obtain ⟨stints, hchronicle⟩ := chronicle_course hhead
    ((r.perform (.begin id p options)).1.movesOf id after)
  rw [hscope] at hchronicle
  refine ⟨_, stints, hrun, ?_, ?_⟩
  · show _ = ofSteps (seen id ((fresh registry mappings root).course _).2)
    rw [hseen, ofSteps_append, incidents_signals]
    rfl
  · obtain ⟨hsame, hpipeline, -⟩ := Run.course_frame (r.newRun id p options start)
      ((r.perform (.begin id p options)).1.movesOf id after)
    exact stayed_of_chronicle hchronicle hsame hpipeline

/-- Two commands for one capability. -/
def publishers : Registry :=
  [{ capability := "release.publish", command := "tag" },
    { capability := "release.publish", command := "push" }]

/-- A course of a run in which the first of them exports a variable and the second fails. -/
def halfPublished : List Act :=
  [.advance "r" "", .advance "r" "", .answer "r" { success := true, vars := [("tag", "v2")] },
    .advance "r" "", .answer "r" (.failure "refused"), .advance "r" ""]

/-- What the first command exported is still seen when the step has failed. -/
theorem stints_of_half_published :
    Table.get? ((fresh publishers [] "/").course []).1.runs "r" = none ∧
    StartPoint.Begins withWayOut .beginning 0 ∧
    ∃ run stints told,
      Table.get? ((fresh publishers [] "/").course
        ([] ++ .begin "r" withWayOut {} :: halfPublished)).1.runs "r" = some run ∧
      Stayed withWayOut "r" ⟨[], "/", false⟩ run stints told ∧ told.length = 7 ∧
      run.scope.vars = [("tag", "v2")] := by
  refine ⟨rfl, rfl, ?_⟩
  obtain ⟨run, stints, hrun, -, hstayed⟩ :=
    stints_of_run publishers [] "/" [] "r" withWayOut {} 0 halfPublished rfl rfl
  have hvars : (Table.get? ((fresh publishers [] "/").course
      ([] ++ .begin "r" withWayOut {} :: halfPublished)).1.runs "r").map (·.scope.vars) =
        some [("tag", "v2")] := by
    with_unfolding_all rfl
  rw [hrun] at hvars
  exact ⟨run, stints, _, hrun, hstayed, by with_unfolding_all rfl, Option.some.inj hvars⟩

end Runner

end Workflow
