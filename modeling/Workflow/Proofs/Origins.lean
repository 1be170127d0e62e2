import Workflow.Builtin
import Workflow.Proofs.DefaultDirectories

/- Where invocations come from, and which of them are dry. What is shown of a run is shown
   after it was begun (`begun_of_known`), and an invocation is made in one of the stints of its
   run (`origin_of_course`). Nothing that a run does changes whether it was asked to be dry, and
   a step keeps its note until it is dispatched; so an invocation is dry when its run was asked
   to be, or when its step asks for it (`Origin.dryAs`). -/
namespace Workflow

/-! ## Dry steps -/

/-- A step that stands for a shell command keeps its note in it. -/
theorem Intent.note_toTerminal {i j : Intent} {cwd : String} (h : i.toTerminal cwd = .ok j) :
    j.note = i.note := by
  unfold toTerminal at h
  cases hkind : StepKind.parse i with
  | error e => simp [hkind, bind, Except.bind] at h
  | ok kind =>
    simp only [hkind, bind, Except.bind] at h
    split at h <;> cases h <;> rfl

theorem Scope.note_ready {scope : Scope} {step compiled : Intent}
    (h : scope.ready step = .ok (.dispatch compiled)) : compiled.note = step.note := by
  unfold ready at h
  cases hkind : StepKind.parse (step.resolve scope.vars) with
  | error e => simp [hkind, bind, Except.bind] at h
  | ok kind =>
    simp only [hkind, bind, Except.bind] at h
    split at h
    · cases h
    · cases hcompile : (scope.defaulted step).compile scope.vars scope.cwd with
      | error e => simp [hcompile] at h
      | ok intent =>
        simp only [hcompile, Except.ok.injEq, ReadyStep.dispatch.injEq] at h
        subst h
        have hdefaulted : (scope.defaulted step).note = step.note := by
          unfold defaulted
          split <;> rfl
        exact (Intent.note_toTerminal hcompile).trans hdefaulted

theorem Scope.dryRun_changed (scope : Scope) (change : Change) :
    (scope.changed change).dryRun = scope.dryRun := by
  cases change <;> rfl

/-- No step changes whether the run is to be dry. -/
theorem Scope.dryRun_replay (scope : Scope) (stints : List Stint) :
    (scope.replay stints).dryRun = scope.dryRun := by
  unfold replay
  induction stints.flatMap Stint.changes generalizing scope with
  | nil => rfl
  | cons change rest ih => exact (ih _).trans (scope.dryRun_changed change)

/-! ## Commands that come with the program -/

namespace Builtin

/-- A command that there is runs a shell command or logs a message. -/
theorem handler_of_command {name : String} {handler : Handler}
    (h : Table.get? commands name = some handler) :
    handler = terminalRun ∨ handler = systemLog := by
  have hmem : handler ∈ commands.map (·.2) := by
    unfold Table.get? at h
    obtain ⟨entry, hentry, rfl⟩ := Option.map_eq_some_iff.mp h
    exact List.mem_map_of_mem (List.mem_of_find?_eq_some hentry)
  have hall : commands.map (·.2) = [systemLog, terminalRun] := rfl
  rw [hall] at hmem
  simpa [or_comm] using hmem

/-- A dry run of a command starts no shell command and leaves the files alone. -/
theorem dispatch_dry {i : Invocation} (h : i.dryRun = true) (b : Bench) :
    (dispatch b i).1.started = b.started ∧ (dispatch b i).1.tree = b.tree := by
  unfold dispatch
  cases hhandler : Table.get? commands i.command with
  | none => exact ⟨rfl, rfl⟩
  | some handler =>
    rcases handler_of_command hhandler with rfl | rfl
    · exact ⟨congrArg Bench.started (terminalRun_dry h), congrArg Bench.tree (terminalRun_dry h)⟩
    · exact ⟨rfl, rfl⟩

end Builtin

/-- How an invocation for a step goes when a dry run was asked for or was not. -/
structure Invocation.DryAs (inv : Invocation) (asked : Bool) (step : Intent) : Prop where
  /-- It is dry when that was asked for, and otherwise exactly when the step asks for it. -/
  dry_iff : inv.dryRun = true ↔ asked = true ∨ step.asksDryRun = true
  /-- The note of the intent that the command is given says the same. -/
  noted : inv.intent.note.bind (·.dryRun) = some inv.dryRun
  /-- When it is dry, no command of the program starts a shell command or touches a file. -/
  idle : inv.dryRun = true → ∀ b : Bench,
    (Builtin.dispatch b inv).1.started = b.started ∧ (Builtin.dispatch b inv).1.tree = b.tree

/-- What is invoked in a stint is dry as the run is, or as the step asks. -/
theorem Stint.dryAs {v : Stint} {runId : String} {inv : Invocation}
    (h : inv ∈ (v.trace runId).filterMap Incident.invocation?) :
    inv.DryAs v.scope.dryRun v.step := by
  obtain ⟨intent, r, ⟨compiled, hready, rfl⟩, rfl⟩ := dispatches_of_invocation h
  have hasks : compiled.asksDryRun = v.step.asksDryRun := by
    unfold Intent.asksDryRun
    rw [Scope.note_ready hready]
  have hdry : (v.intent runId compiled).asksDryRun = (v.scope.dryRun || v.step.asksDryRun) := by
    rw [← hasks]
    simp [intent, Intent.stamped, Intent.asksDryRun]
  constructor
  case dry_iff =>
    show (v.intent runId compiled).asksDryRun = true ↔ _
    rw [hdry, Bool.or_eq_true]
  case noted =>
    show some (v.scope.dryRun || compiled.asksDryRun) = some (v.intent runId compiled).asksDryRun
    rw [hdry, hasks]
  case idle => exact Builtin.dispatch_dry

/-! ## Invocations of a course -/

namespace Runner

variable {r : Runner} {acts : List Act} {inv : Invocation}

theorem unknown_of_unbegun (hnone : r.runs = []) (id : String) : Table.get? r.runs id = none := by
  rw [hnone]
  exact Table.get?_nil id

theorem keyed_of_unbegun (hnone : r.runs = []) : r.Keyed := by
  intro id run hrun
  rw [unknown_of_unbegun hnone] at hrun
  cases hrun

/-- A run that is unknown stays so, unless it is begun. -/
theorem unknown_perform {id : String} {a : Act} (hk : r.Keyed)
    (hnew : Table.get? r.runs id = none)
    (hb : ∀ p options start, a = .begin id p options → p.startIndex options.start ≠ .ok start) :
    Table.get? (r.perform a).1.runs id = none := by
  cases ha : r.moveOf? id a with
  | some m => rw [(perform_miss hnew ha).1, hnew]
  | none =>
    by_cases hbegin : ∃ p options, a = .begin id p options
    · obtain ⟨p, options, rfl⟩ := hbegin
      rcases r.perform_begin id p options with ⟨start, -, hstart, -, -⟩ | ⟨-, hnothing⟩
      · exact absurd hstart (hb p options start rfl)
      · rw [hnothing, hnew]
    · rw [(perform_other hk ha fun p options ha' => absurd ⟨p, options, ha'⟩ hbegin).1, hnew]

/-- A run that is known at the end of a course, and was not before it, was begun in it. -/
theorem begun_of_known {id : String} (hk : r.Keyed) (hnew : Table.get? r.runs id = none)
    (h : (Table.get? (r.course acts).1.runs id).isSome) :
    ∃ before p options start after, acts = before ++ .begin id p options :: after ∧
      Table.get? (r.course before).1.runs id = none ∧ p.startIndex options.start = .ok start := by
  induction acts generalizing r with
  | nil => simp [hnew] at h
  | cons a rest ih =>
    by_cases hb : ∃ p options start, a = .begin id p options ∧
        p.startIndex options.start = .ok start
    · obtain ⟨p, options, start, rfl, hstart⟩ := hb
      exact ⟨[], p, options, start, rest, rfl, hnew, hstart⟩
    · have hstill := unknown_perform hk hnew fun p options start ha hstart =>
        hb ⟨p, options, start, ha, hstart⟩
      obtain ⟨before, p, options, start, after, rfl, hunknown, hstart⟩ :=
        ih (keyed_perform hk a) hstill h
      exact ⟨a :: before, p, options, start, after, rfl, hunknown, hstart⟩

/-- The chronicle of a run that is begun in a course. -/
theorem chronicle_of_begin {before : List Act} {id : String} {p : Pipeline}
    {options : RunOptions} {start : Nat} (hk : r.Keyed)
    (hid : Table.get? (r.course before).1.runs id = none)
    (hs : p.startIndex options.start = .ok start) (after : List Act) :
    ∃ run stints told, run.id = id ∧ run.pipeline = p ∧
      Chronicle ⟨options.vars, options.cwd.getD r.workspaceRoot, options.dryRun⟩ run stints told ∧
      told.filterMap Incident.signal? =
        ofSteps (seen id (r.course (before ++ .begin id p options :: after)).2) := by
  obtain ⟨-, hseen⟩ := course_of_begin hk hid hs after
  have hroot : (r.course before).1.workspaceRoot = r.workspaceRoot := (r.course_setting before).2
  generalize hr : (r.course before).1 = at_begin at hseen hroot
  have hhead : (at_begin.newRun id p options start).phase = .head start := rfl
  have hscope : (at_begin.newRun id p options start).scope =
      ⟨options.vars, options.cwd.getD r.workspaceRoot, options.dryRun⟩ := by
    rw [newRun, hroot]
  obtain ⟨stints, hchronicle⟩ :=
    chronicle_course hhead ((at_begin.perform (.begin id p options)).1.movesOf id after)
  obtain ⟨hsame, hpipeline, -⟩ := Run.course_frame (at_begin.newRun id p options start)
    ((at_begin.perform (.begin id p options)).1.movesOf id after)
  rw [hscope] at hchronicle
  refine ⟨_, stints, _, hsame, hpipeline, hchronicle, ?_⟩
  rw [hseen, ofSteps_append, incidents_signals]
  rfl

/-- Where an invocation that is shown in a course comes from. -/
structure Origin (r : Runner) (acts : List Act) (inv : Invocation) (p : Pipeline)
    (options : RunOptions) (v : Stint) : Prop where
  /-- It is of a run that was begun in the course. -/
  begun : ∃ before after start, acts = before ++ .begin inv.runId p options :: after ∧
    Table.get? (r.course before).1.runs inv.runId = none ∧ options.start.Begins p start
  /-- It was made in a stint in a step of the document. -/
  step : p.steps[v.index]? = some v.step
  made : inv ∈ (v.trace inv.runId).filterMap Incident.invocation?
  /-- The step saw whether the run was asked to be dry. -/
  asked : v.scope.dryRun = options.dryRun

/-- Every invocation that is shown in a course from no runs comes from a run of it. -/
theorem origin_of_course (hnone : r.runs = []) (h : .invoke inv ∈ (r.course acts).2) :
    ∃ p options v, Origin r acts inv p options v := by
  have hk := keyed_of_unbegun hnone
  have hseen : .invoke inv ∈ seen inv.runId (r.course acts).2 :=
    List.mem_filter.mpr ⟨h, by simp [Signal.runId]⟩
  have hknown : (Table.get? (r.course acts).1.runs inv.runId).isSome := by
    refine Option.isSome_iff_ne_none.mpr fun hunknown => ?_
    rw [unseen_before hk hunknown] at hseen
    cases hseen
  obtain ⟨before, p, options, start, after, rfl, hunknown, hstart⟩ :=
    begun_of_known hk (unknown_of_unbegun hnone _) hknown
  obtain ⟨run, stints, told, hrun, hpipeline, hchronicle, htold⟩ :=
    chronicle_of_begin hk hunknown hstart after
  have hinv : .invoke inv ∈ told.filterMap Incident.signal? := by
    rw [htold]
    exact List.mem_filter.mpr ⟨hseen, rfl⟩
  obtain ⟨v, hv, hmade⟩ := hchronicle.invoked hinv
  obtain ⟨earlier, later, hsplit⟩ := List.append_of_mem hv
  refine ⟨p, options, v, ?_⟩
  constructor
  case begun =>
    exact ⟨before, after, start, rfl, hunknown, startIndex_eq_ok_iff.mp hstart⟩
  case step => exact hpipeline ▸ (hchronicle.step v hv).1
  case made => rwa [hrun] at hmade
  case asked =>
    rw [hchronicle.scopes earlier v later hsplit, Scope.dryRun_replay]

/-- An invocation is dry as its run was asked to be, or as its step asks. -/
theorem Origin.dryAs {p : Pipeline} {options : RunOptions} {v : Stint}
    (h : Origin r acts inv p options v) : inv.DryAs options.dryRun v.step := by
  rw [← h.asked]
  exact Stint.dryAs h.made

end Runner

end Workflow
