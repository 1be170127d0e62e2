import Workflow.Cli.Listing
import Workflow.Proofs.Resolutions
import Workflow.Proofs.StepKinds
import Workflow.Proofs.Stints

/- The check of a document against its runs. Where no variable is known nothing is filled
   in, and so the verdict on a step that declares no trigger is what a run makes of it
   whose store is empty and whose directory is the root of the workspace
   (`Examiner.verdict_eq`). What such a run does in the step follows from that, from what
   it looks its commands up in and from the answers alone (`next_stint`), and so the
   report of the step and the run agree (`check_agrees_with_run`). -/
namespace Workflow

/-! ## Steps without variables -/

/-- A step is of the kind of triggers only by its name. -/
theorem afterStart?_of_trigger {step : Intent} {suffix : String}
    (h : StepKind.parse step = .ok (.trigger suffix)) :
    Text.afterStart? triggerStart step.name = some suffix :=
  StepKind.Variant.afterStart?_of_ofName (StepKind.variant_of_parse h).symm

/-- What resolutions an intent has does not depend on its note. -/
theorem resolve_stamped (registry : Registry) (mappings : List Route) (intent : Intent)
    (dryRun : Bool) (traceId runId : String) :
    registry.resolve mappings (intent.stamped dryRun traceId runId) =
      registry.resolve mappings intent := rfl

namespace Examiner

/-- The verdict on a step that has been made ready. -/
def verdictOn (x : Examiner) : Except PipelineError ReadyStep → Except Objection Verdict
  | .error e => .error (.step e)
  | .ok (.control _) => .ok .control
  | .ok (.dispatch compiled) =>
    .ok (.routed (x.around.registry.resolve x.around.mappings compiled))

/-- The verdict on a step is that on the step made ready without variables, at the root of the
workspace. -/
theorem verdict_eq (x : Examiner) (index : Nat) {step : Intent} {scope : Scope}
    (hvars : scope.vars = []) (hcwd : scope.cwd = x.workspaceRoot)
    (hplain : Text.afterStart? triggerStart step.name = none) :
    x.verdict index step = x.verdictOn (scope.ready step) := by
  have hdefaulted : (Scope.initial x.workspaceRoot).defaulted step = scope.defaulted step := by
    simp [Scope.defaulted, Scope.initial, hcwd]
  unfold verdict Scope.ready
  rw [hvars, Intent.resolve_nil]
  cases hkind : StepKind.parse step with
  | error e => rfl
  | ok kind =>
    cases kind with
    | trigger suffix =>
      rw [afterStart?_of_trigger hkind] at hplain
      cases hplain
    | setCwd | setVar => rfl
    | terminalRun | git | docker | other =>
      show x.routeVerdict step = _
      unfold routeVerdict
      dsimp only
      rw [hdefaulted, hcwd]
      cases hcompiled : (scope.defaulted step).compile [] x.workspaceRoot <;>
        simp [StepKind.isControlFlow, bind, Except.bind, verdictOn, Scope.initial, hcompiled]

end Examiner

/-! ## What a run does next -/

/-- Whether a stint does its step itself: the step ends as soon as it has begun. -/
def Stint.IsOwn (v : Stint) (runId : String) : Prop :=
  v.trace runId =
    [.began v.around ⟨runId, .stepStart v.index v.step.id v.step.name⟩, v.ended runId true]

/-- Whether a stint has found these resolutions for its intent, and does with them what a stint
does: it dispatches all if all succeed, and else stops behind the first that fails. -/
structure Stint.Serves (v : Stint) (runId : String) (intent : Intent) (found : List Resolution) :
    Prop where
  finds : v.found intent = some found
  commands : ((v.trace runId).filterMap Incident.invocation?).map (·.command) =
    (found.take (v.granted + 1)).map (·.command)
  success_iff : v.ended runId true ∈ v.trace runId ↔ found.length ≤ v.granted
  failure_iff : v.ended runId false ∈ v.trace runId ↔
    v.granted < found.length ∧ v.granted < v.answers.length

/-- Whether a stint dispatches an intent that has these resolutions in a registry. It serves them
as soon as it looks them up, if that is still the registry then, and before it does nothing else
than to begin. -/
structure Stint.Routes (v : Stint) (runId : String) (registry : Registry)
    (found : List Resolution) : Prop where
  intent : ∃ intent, v.Dispatches runId intent ∧
    (v.looked = none → v.trace runId =
      [.began v.around ⟨runId, .stepStart v.index v.step.id intent.name⟩]) ∧
    ∀ around, v.looked = some around → around.registry = registry →
      v.Serves runId intent found

/-- Whether a run that is in front of a step goes on with such a stint in it, as far as it comes,
whatever is done around the runner after its next move. -/
def Runner.Goes (r : Runner) (id : String) (run : Run) (i : Nat) (step : Intent)
    (like : Stint → Prop) : Prop :=
  ∀ trace after, ∃ (v : Stint) (others : List Stint) (later : Option Incident),
    v.index = i ∧ v.step = step ∧ like v ∧
      run.incidents (r.movesOf id (.advance id trace :: after)) ++ later.toList =
        (v :: others).flatMap (Stint.trace id)

/-- What is shown is no lookup. -/
theorem Signal.incident?_ne_looked (around around' : Surroundings) (signal : Signal) :
    signal.incident? around' ≠ some (.looked around) := by
  intro hlooked
  cases signal with
  | invoke i => cases hlooked
  | event e =>
    obtain ⟨id, happening⟩ := e
    cases happening <;> cases hlooked

namespace Run

variable {run : Run} {around : Surroundings}

/-- Commands are looked up in the surroundings of a move, which then goes on with them. -/
theorem of_looked {m : Move} (h : .looked around ∈ run.told m) :
    m = .advance around ∧ ∃ x, run.told m = [.looked around, x] := by
  cases m with
  | advance around' =>
    have hlookup : .looked around ∈ (run.lookup? around').toList := by
      rcases List.mem_append.mp h with hlookup | hshown
      · exact hlookup
      · obtain ⟨next, -, hsignal⟩ := Option.bind_eq_some_iff.mp (Option.mem_toList.mp hshown)
        exact absurd hsignal (Signal.incident?_ne_looked around around' next.2)
    unfold lookup? at hlookup
    split at hlookup
    · rename_i hp
      obtain rfl : around = around' := by simpa using hlookup
      exact ⟨rfl, told_of_announced hp around⟩
    · cases hlookup
  | answer outcome =>
    cases hp : run.phase <;> simp [told, hp] at h
  | act action => cases h

theorem advance_of_looked {moves : List Move} (h : .looked around ∈ run.incidents moves) :
    .advance around ∈ moves := by
  induction moves generalizing run with
  | nil => cases h
  | cons m rest ih =>
    rcases List.mem_append.mp h with hfirst | hrest
    · rw [(of_looked hfirst).1]
      exact List.mem_cons_self
    · exact List.mem_cons_of_mem _ (ih hrest)

end Run

/-- What a run has yet to tell is no lookup. -/
theorem Pending.ne_looked {run : Run} {stints : List Stint} {told : List Incident}
    {later : Option Incident} (h : Pending run stints told later) (around : Surroundings) :
    later ≠ some (.looked around) := by
  intro hlater
  have hnext := h.next _ hlater around
  obtain ⟨-, x, htwo⟩ := Run.of_looked (show .looked around ∈ run.told (.advance around) by
    rw [hnext]
    exact List.mem_singleton_self _)
  rw [hnext] at htwo
  cases htwo

section Next

variable {run : Run} {i : Nat} {step : Intent} {ready : ReadyStep}

theorem told_of_ready (around : Surroundings) (hp : run.phase = .head i)
    (hs : run.pipeline.steps[i]? = some step) (hfree : run.state = {})
    (hready : run.scope.ready step = .ok ready) :
    ∃ name, run.told (.advance around) =
      [.began around ⟨run.id, .stepStart i step.id name⟩] := by
  cases ready with
  | control kind =>
    have hmove : Run.Advance around run _ _ := .control hp hs hfree hready
    refine ⟨step.name, ?_⟩
    rw [Run.told, Run.lookup?, hp, Run.advance?_of_advance hmove]
    rfl
  | dispatch compiled =>
    have hmove : Run.Advance around run _ _ := .dispatch hp hs hfree hready rfl
    refine ⟨compiled.name, ?_⟩
    rw [Run.told, Run.lookup?, hp, Run.advance?_of_advance hmove]
    rfl

/-- Its next stint is in that step, in the scope of the moment, and has been told of what it looked
up. -/
theorem next_stint (around : Surroundings) (hp : run.phase = .head i)
    (hs : run.pipeline.steps[i]? = some step) (hfree : run.state = {})
    (hready : run.scope.ready step = .ok ready) (rest : List Move) :
    ∃ (v : Stint) (others : List Stint) (later : Option Incident),
      (v.index = i ∧ v.step = step ∧ v.scope = run.scope) ∧
      (∀ around', .looked around' ∈ v.trace run.id →
        .looked around' ∈ run.incidents (.advance around :: rest)) ∧
      run.incidents (.advance around :: rest) ++ later.toList =
        (v :: others).flatMap (Stint.trace run.id) := by
  obtain ⟨stints, hchronicle⟩ := chronicle_course hp (.advance around :: rest)
  obtain ⟨hid, hpipeline, -⟩ := Run.course_frame run (.advance around :: rest)
  obtain ⟨later, hpending⟩ := hchronicle.pending
  obtain ⟨name, hbegan⟩ := told_of_ready around hp hs hfree hready
  have hleft := hpending.left
  rw [hid] at hleft
  have hall := hleft
  rw [Run.incidents, hbegan] at hall
  cases stints with
  | nil => simp at hall
  | cons v others =>
    obtain ⟨hstep, ready', hready'⟩ := hchronicle.step v (by simp)
    obtain ⟨name', rest', htrace⟩ := Stint.trace_of_ready run.id hready'
    -- the traces begin with the beginning that the run tells of
    rw [List.flatMap_cons, htrace] at hall
    simp only [List.cons_append, List.cons.injEq, Incident.began.injEq, Event.mk.injEq,
      Happening.stepStart.injEq] at hall
    obtain ⟨⟨-, -, hi, -, -⟩, -⟩ := hall
    rw [hpipeline, hi, hs] at hstep
    refine ⟨v, others, later, ⟨hi, (Option.some.inj hstep).symm, ?_⟩, ?_, hleft.symm⟩
    · exact hchronicle.scopes [] v others rfl
    · intro around' hlooked
      have hmem : .looked around' ∈ (v :: others).flatMap (Stint.trace run.id) :=
        List.mem_append_left _ hlooked
      rw [hleft, List.mem_append] at hmem
      rcases hmem with hmem | hmem
      · exact hmem
      · exact absurd (Option.mem_toList.mp hmem) (hpending.ne_looked around')

end Next

namespace Runner

section Next

variable {r : Runner} {id : String} {run : Run} {i : Nat} {step : Intent}

theorem movesOf_advance (r : Runner) (id trace : String) (after : List Act) :
    r.movesOf id (.advance id trace :: after) =
      .advance ⟨r.registry, r.mappings, trace⟩ ::
        (r.perform (.advance id trace)).1.movesOf id after := by
  simp [movesOf, moveOf?]

/-- The moves of a run know the mappings of the runner. -/
theorem mappings_of_moves {acts : List Act} {around : Surroundings}
    (h : .advance around ∈ r.movesOf id acts) : around.mappings = r.mappings := by
  induction acts generalizing r with
  | nil => cases h
  | cons a rest ih =>
    rcases List.mem_append.mp h with hfirst | hrest
    · cases a <;> simp [moveOf?] at hfirst
      rw [← hfirst.2]
    · exact (ih hrest).trans (course_setting r [a]).1

/-- What a run makes of a step that is ready shows in its next stint. -/
theorem goes_of_ready {like : Stint → Prop} (hid : run.id = id) (hp : run.phase = .head i)
    (hs : run.pipeline.steps[i]? = some step) (hfree : run.state = {}) {ready : ReadyStep}
    (hready : run.scope.ready step = .ok ready)
    (hlike : ∀ v : Stint, v.scope.ready v.step = .ok ready →
      (∀ around, .looked around ∈ v.trace id → around.mappings = r.mappings) → like v) :
    r.Goes id run i step like := by
  intro trace after
  rw [movesOf_advance]
  obtain ⟨v, others, later, ⟨hindex, hstep, hscope⟩, hlooked, htold⟩ :=
    next_stint ⟨r.registry, r.mappings, trace⟩ hp hs hfree hready
      ((r.perform (.advance id trace)).1.movesOf id after)
  subst hid
  refine ⟨v, others, later, hindex, hstep, hlike v ?_ ?_, htold⟩
  · rw [hscope, hstep, hready]
  · intro around h
    have hmove := Run.advance_of_looked (hlooked around h)
    rw [← movesOf_advance] at hmove
    exact mappings_of_moves hmove

theorem goes_routes_of_dispatch (r : Runner) (hid : run.id = id) (hp : run.phase = .head i)
    (hs : run.pipeline.steps[i]? = some step) (hfree : run.state = {}) {compiled : Intent}
    (hready : run.scope.ready step = .ok (.dispatch compiled)) :
    r.Goes id run i step
      (·.Routes id r.registry (r.registry.resolve r.mappings compiled)) := by
  apply goes_of_ready hid hp hs hfree hready
  intro v hv hmappings
  have hdispatches : v.Dispatches id (v.intent id compiled) := ⟨compiled, hv, rfl⟩
  refine ⟨_, hdispatches, fun hnone => ?_, fun around hlooked hregistry => ?_⟩
  · rw [hdispatches.trace_eq, Stint.dispatch, hnone]
  · have htold : .looked around ∈ v.trace id := by
      rw [hdispatches.trace_eq, Stint.dispatch, hlooked]
      simp
    -- the note of where the intent comes from does not count when it is resolved
    have hfound : v.found (v.intent id compiled) =
        some (r.registry.resolve r.mappings compiled) := by
      rw [Stint.found, hlooked, Option.map_some, Surroundings.resolve, Stint.intent,
        resolve_stamped, hregistry, hmappings around htold]
    constructor
    case finds => exact hfound
    case commands =>
      rw [hdispatches.invocations, hfound, List.map_map]
      rfl
    case success_iff => simp [hdispatches.success_iff, hfound]
    case failure_iff => simp [hdispatches.failure_iff, hfound]

/-- A run that aborts in front of a step makes no stint in it. -/
theorem not_goes_own_of_error (r : Runner) (id : String) (hp : run.phase = .head i)
    (hs : run.pipeline.steps[i]? = some step) (hfree : run.state = {}) {e : PipelineError}
    (hready : run.scope.ready step = .error e) : ¬ r.Goes id run i step (·.IsOwn id) := by
  intro hgoes
  obtain ⟨v, others, later, -, -, hown, htold⟩ := hgoes "" []
  have hmove : Run.Advance ⟨r.registry, r.mappings, ""⟩ run _ _ := .refused hp hs hfree hready
  have hnothing : run.incidents (r.movesOf id [.advance id ""]) = [] := by
    rw [movesOf_advance, movesOf, Run.incidents, Run.told, Run.lookup?, hp,
      Run.advance?_of_advance hmove]
    rfl
  -- one more thing to be told is too little for a stint
  rw [hnothing, List.flatMap_cons, hown] at htold
  cases later <;> simp at htold

/-- A run that dispatches a step looks up its commands when it has begun it. -/
theorem not_goes_own_of_dispatch (r : Runner) (id : String) (hp : run.phase = .head i)
    (hs : run.pipeline.steps[i]? = some step) (hfree : run.state = {}) {compiled : Intent}
    (hready : run.scope.ready step = .ok (.dispatch compiled)) :
    ¬ r.Goes id run i step (·.IsOwn id) := by
  intro hgoes
  obtain ⟨v, others, later, -, -, hown, htold⟩ := hgoes "" [.advance id ""]
  have hmove : Run.Advance ⟨r.registry, r.mappings, ""⟩ run _ _ :=
    .dispatch hp hs hfree hready rfl
  have hphase : (run.move (.advance ⟨r.registry, r.mappings, ""⟩)).1.phase =
      .dispatching i (compiled.stamped run.scope.dryRun "" run.id) none := by
    simp only [Run.move, Run.advance?_of_advance hmove]
  obtain ⟨name, hbegan⟩ := told_of_ready ⟨r.registry, r.mappings, ""⟩ hp hs hfree hready
  obtain ⟨x, hlooked⟩ := Run.told_of_announced hphase
    ⟨(r.perform (.advance id "")).1.registry, (r.perform (.advance id "")).1.mappings, ""⟩
  -- the second thing told is a lookup, where the step would have ended
  rw [movesOf_advance, movesOf_advance, Run.incidents, Run.incidents, hbegan, hlooked,
    List.flatMap_cons, hown] at htold
  simp [Stint.ended] at htold

end Next

end Runner

namespace Cli

/-- Whether the report of a step agrees with what a run makes of it that is in front of the step. -/
structure StepReport.Agrees (report : StepReport) (r : Runner) (id : String) (run : Run) (i : Nat)
    (step : Intent) : Prop where
  /-- The step is reported to fail with a text exactly if the run aborts with that text. -/
  failed_iff : ∀ text, (report.passed = false ∧ report.detail = text) ↔
    ∃ e, r.Ends id (.error e) ∧ e.message = text
  /-- Control flow is what the run does itself. -/
  control_iff : report.verdict = .ok .control ↔ r.Goes id run i step (·.IsOwn id)
  control_words : report.verdict = .ok .control → report.detail = "control flow"
  /-- Anything else is routed to the commands of the resolutions that the run finds; a command is
  marked exactly if it stands for a name that nobody serves. -/
  routed : report.passed = true → report.verdict ≠ .ok .control → ∃ found,
    report.verdict = .ok (.routed found) ∧
    r.Goes id run i step (·.Routes id r.registry found) ∧
    report.detail = "→ " ++ ", ".intercalate (found.map Resolution.describe) ∧
    ∀ x ∈ found, (x.describe = x.command ++ " (unregistered)" ↔ x.source = .fallback) ∧
      (x.source ≠ .fallback → x.describe = x.command)

theorem describe_marked_iff (x : Resolution) :
    (x.describe = x.command ++ " (unregistered)" ↔ x.source = .fallback) ∧
      (x.source ≠ .fallback → x.describe = x.command) := by
  have hlonger : x.command ≠ x.command ++ " (unregistered)" := by
    intro heq
    have := congrArg String.length heq
    simp at this
  unfold Resolution.describe
  cases x.source <;> simp [hlonger]

/-- The report of a verdict on a step agrees with a run that makes the same of the step. -/
theorem agrees_of_ready {x : Examiner} {r : Runner} {id : String} {run : Run} {i : Nat}
    {step : Intent} (hk : r.Keyed) (hrun : Table.get? r.runs id = some run)
    (hp : run.phase = .head i) (hs : run.pipeline.steps[i]? = some step) (hfree : run.state = {})
    (hregistry : r.registry = x.around.registry) (hmappings : r.mappings = x.around.mappings) :
    StepReport.Agrees ⟨i, step, x.verdictOn (run.scope.ready step)⟩ r id run i step := by
  have hid : run.id = id := hk id run hrun
  have herror : ∀ e, r.Ends id (.error e) ↔ run.scope.ready step = .error e := by
    intro e
    rw [Runner.ends_iff hk hrun, finishing_error_iff hp hs]
    exact and_iff_right hfree
  -- report and run both follow what the step is when it is ready
  cases hready : run.scope.ready step with
  | error e =>
    constructor
    case failed_iff =>
      intro text
      constructor
      · intro hfails
        exact ⟨e, (herror e).mpr hready, hfails.2⟩
      · intro haborts
        obtain ⟨e', hends, htext⟩ := haborts
        have hsame := (herror e').mp hends
        rw [hready] at hsame
        cases hsame
        exact ⟨rfl, htext⟩
    case control_iff =>
      refine iff_of_false (fun hcontrol => ?_) ?_
      · cases hcontrol
      · exact Runner.not_goes_own_of_error r id hp hs hfree hready
    case control_words =>
      intro hcontrol
      cases hcontrol
    case routed =>
      intro hpassed
      cases hpassed
  | ok ready =>
    have hnever : ∀ text, ¬ ∃ e, r.Ends id (.error e) ∧ e.message = text := by
      intro text haborts
      obtain ⟨e, hends, -⟩ := haborts
      have hsame := (herror e).mp hends
      rw [hready] at hsame
      cases hsame
    cases ready with
    | control kind =>
      constructor
      case failed_iff =>
        intro text
        refine iff_of_false (fun hfails => ?_) (hnever text)
        cases hfails.1
      case control_iff =>
        refine iff_of_true rfl ?_
        apply Runner.goes_of_ready hid hp hs hfree hready
        intro v hv _
        simp [Stint.IsOwn, Stint.trace, hv]
      case control_words => exact fun _ => rfl
      case routed => exact fun _ hne => absurd rfl hne
    | dispatch compiled =>
      have hroutes := Runner.goes_routes_of_dispatch r hid hp hs hfree hready
      constructor
      case failed_iff =>
        intro text
        refine iff_of_false (fun hfails => ?_) (hnever text)
        cases hfails.1
      case control_iff =>
        refine iff_of_false (fun hcontrol => ?_) ?_
        · cases hcontrol
        · exact Runner.not_goes_own_of_dispatch r id hp hs hfree hready
      case control_words =>
        intro hcontrol
        cases hcontrol
      case routed =>
        intro _ _
        refine ⟨_, rfl, ?_, rfl, fun x _ => describe_marked_iff x⟩
        rw [← hregistry, ← hmappings]
        exact hroutes

/-- **The check agrees with the runs.** A run of a document whose store is empty and whose directory
is the root of the workspace, and which comes to a step that declares no trigger, aborts there with
the text that the check reports for the step, does the step itself if that is reported as control
flow, and otherwise dispatches the reported commands, in order, up to the first that fails, if the
registry is still the same when it looks them up. -/
theorem check_agrees_with_run (c : Context) (path : String) (acts : List Act) (id : String)
    (run : Run) (i : Nat) (step : Intent)
    (hrun : Table.get? ((Runner.fresh Builtin.registry c.mappings c.workspaceRoot).course
      acts).1.runs id = some run)
    (hregistry : ((Runner.fresh Builtin.registry c.mappings c.workspaceRoot).course
      acts).1.registry = Builtin.registry)
    (hhead : run.phase = .head i) (hstep : run.pipeline.steps[i]? = some step)
    (hfree : run.state = {}) (hvars : run.scope.vars = [])
    (hcwd : run.scope.cwd = c.workspaceRoot)
    (hplain : Text.afterStart? triggerStart step.name = none) :
    ∃ report, (c.stepReports path run.pipeline)[i]? = some report ∧ report.step = step ∧
      report.Agrees ((Runner.fresh Builtin.registry c.mappings c.workspaceRoot).course acts).1 id
        run i step := by
  have hk := Runner.keyed_course (Runner.keyed_fresh Builtin.registry c.mappings c.workspaceRoot)
    acts
  have hmappings := (Runner.course_setting
    (Runner.fresh Builtin.registry c.mappings c.workspaceRoot) acts).1
  let x : Examiner := {
    around := c.around
    workspaceRoot := c.workspaceRoot
    defaults := c.settings.defaults
    document := path }
  refine ⟨⟨i, step, x.verdict i step⟩, ?_, rfl, ?_⟩
  · simp [Context.stepReports, Examiner.verdicts, List.getElem?_zipIdx, hstep, x]
  · rw [x.verdict_eq i hvars hcwd hplain]
    exact agrees_of_ready hk hrun hhead hstep hfree hregistry hmappings

/-- A document of one step that nobody serves. -/
def unserved : Pipeline where
  name := "release"
  steps := [{ name := "release.publish" }]

/-- The step is reported with its own name as the command, and so is it dispatched. -/
theorem unserved_step_agrees :
    let r := ((Runner.fresh Builtin.registry (default : Context).mappings
      (default : Context).workspaceRoot).course [.begin "r" unserved {}]).1
    ∃ (run : Run) (report : StepReport), Table.get? r.runs "r" = some run ∧ run.phase = .head 0 ∧ run.state = {} ∧
      run.scope.vars = [] ∧ run.scope.cwd = (default : Context).workspaceRoot ∧
      Text.afterStart? triggerStart "release.publish" = none ∧
      report.detail = "→ release.publish (unregistered)" ∧
      report.Agrees r "r" run 0 { name := "release.publish" } := by
  intro r
  have hplain : Text.afterStart? triggerStart "release.publish" = none := by decide
  obtain ⟨report, hreport, -, hagrees⟩ := check_agrees_with_run default "release.json"
    [.begin "r" unserved {}] "r" _ 0 { name := "release.publish" } rfl rfl rfl rfl rfl rfl rfl
    hplain
  refine ⟨_, report, rfl, rfl, rfl, rfl, rfl, hplain, ?_, hagrees⟩
  have hdetail : ((default : Context).stepReports "release.json" unserved)[0]?.map
      StepReport.detail = some "→ release.publish (unregistered)" := by
    with_unfolding_all rfl
  have hsame : ((default : Context).stepReports "release.json" unserved)[0]? = some report :=
    hreport
  rw [hsame] at hdetail
  exact Option.some.inj hdetail

end Cli

end Workflow
