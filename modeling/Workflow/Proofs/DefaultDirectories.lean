import Workflow.Proofs.Stints

/- The directory that a command is told of. A git or docker step becomes a shell command after
   its templates are filled, and carries the current directory as it is. A shell command that
   leaves its directory to the default is given the current one before its templates are
   filled, so a token in the text of the directory is filled once more
   (`directories_of_run`), and what the payload says is then not where the command is run. -/
namespace Workflow

/-- Whether a payload leaves its directory to the default: it has none, or it is null, blank, a dot
or what stands for the workspace. What is no object has no directory. -/
def Json.LeavesDirectory (payload : Json) : Prop :=
  ∀ v, payload.field? "cwd" = some v → v = .null ∨ ∃ s, v = .str s ∧
    (Text.blank s = true ∨ Text.trim s = "." ∨ Text.trim s = "$\x7bworkspaceFolder\x7d")

theorem defaultedCwd_iff (payload : Json) :
    defaultedCwd (payload.field? "cwd") = true ↔ payload.LeavesDirectory := by
  unfold Json.LeavesDirectory
  cases payload.field? "cwd" with
  | none => simp [defaultedCwd]
  | some v =>
    cases v with
    | str s => simp [defaultedCwd, Text.blank_iff_trim_eq, or_assoc]
    | _ => simp [defaultedCwd]

theorem field?_applyDefaultCwd {payload : Json} (h : payload.LeavesDirectory) (cwd : String) :
    (applyDefaultCwd payload cwd).field? "cwd" = some (.str cwd) := by
  have hleft := (defaultedCwd_iff payload).mpr h
  cases payload with
  | obj fields =>
    have hset : applyDefaultCwd (.obj fields) cwd = .obj (Table.insert "cwd" (.str cwd) fields) :=
      if_pos hleft
    rw [hset]
    show Table.get? (Table.insert "cwd" (.str cwd) fields) "cwd" = _
    rw [Table.get?_insert, if_pos rfl]
  | _ => rfl

/-! ## Steps made ready -/

theorem StepKind.parse_shell {i : Intent} (h : i.name = terminalRunName) :
    ∃ command cwd, StepKind.parse i = .ok (.terminalRun command cwd) := by
  unfold StepKind.parse
  rw [h]
  exact ⟨_, _, rfl⟩

namespace Scope

variable (scope : Scope) {step : Intent}

/-- A shell command is always dispatched. The directory is put into its payload first, and the
templates are filled behind that. -/
theorem ready_shell (h : step.name = terminalRunName) :
    scope.ready step = .ok (.dispatch { step with
      payload := Template.fillJson scope.vars (applyDefaultCwd step.payload scope.cwd) }) := by
  obtain ⟨command, cwd, hkind⟩ := StepKind.parse_shell (i := step.resolve scope.vars) h
  have hdefaulted : scope.defaulted step =
      { step with payload := applyDefaultCwd step.payload scope.cwd } := if_pos h
  obtain ⟨command', cwd', hkind'⟩ :=
    StepKind.parse_shell (i := (scope.defaulted step).resolve scope.vars) (hdefaulted ▸ h)
  simp only [ready, hkind, Intent.compile, Intent.toTerminal, hkind']
  rw [hdefaulted]
  rfl

/-- A git or docker step is dispatched with the directory as it is. -/
theorem ready_macro {kind : StepKind} {command : String}
    (hkind : StepKind.parse (step.resolve scope.vars) = .ok kind)
    (hcommand : kind.shellCommand? = some command) :
    scope.ready step = .ok (.dispatch { step.resolve scope.vars with
      name := terminalRunName
      payload := .obj [("command", .str command), ("cwd", .str scope.cwd)]
      capabilities := none }) := by
  have hcontrol : kind.isControlFlow = false := by
    cases kind <;> first | rfl | cases hcommand
  have hother : step.name ≠ terminalRunName := by
    intro h
    obtain ⟨command', cwd, hshell⟩ := StepKind.parse_shell (i := step.resolve scope.vars) h
    rw [hshell] at hkind
    cases hkind
    cases hcommand
  have hdefaulted : scope.defaulted step = step := if_neg hother
  simp [ready, hkind, hdefaulted, Intent.compile, Intent.toTerminal, bind, Except.bind, hcontrol,
    hcommand]

end Scope

/-! ## The invocations of a stint -/

namespace Stint

variable {v : Stint} {runId : String} {inv : Invocation}

/-- What is told of directories when a command is invoked in a stint. -/
structure Directs (v : Stint) (inv : Invocation) : Prop where
  /-- The command is run in the directory of the moment. -/
  ran : inv.cwd = v.scope.cwd
  /-- The shell command of a git or docker step says so too. -/
  of_macro : ∀ kind command, StepKind.parse (v.step.resolve v.scope.vars) = .ok kind →
    kind.shellCommand? = some command → inv.intent.text? "cwd" = some inv.cwd
  /-- A shell command that leaves it to the default has it with its tokens filled. -/
  of_default : v.step.name = terminalRunName → v.step.payload.LeavesDirectory →
    inv.intent.text? "cwd" = some (Template.fill v.scope.vars inv.cwd)
  /-- That is the directory of the moment if nothing that its tokens ask for is known. -/
  of_plain : v.step.name = terminalRunName → v.step.payload.LeavesDirectory →
    (∀ name ∈ Template.names inv.cwd, Table.get? v.scope.vars name = none) →
    inv.intent.text? "cwd" = some inv.cwd

theorem dispatches_of_invocation (h : inv ∈ (v.trace runId).filterMap Incident.invocation?) :
    ∃ intent r, v.Dispatches runId intent ∧ inv = v.invocation runId intent r := by
  cases hready : v.scope.ready v.step with
  | error e => simp [trace, hready] at h
  | ok ready =>
    cases ready with
    | control kind => simp [trace, hready, Incident.invocation?, ended] at h
    | dispatch compiled =>
      have hdispatches : v.Dispatches runId (v.intent runId compiled) := ⟨compiled, hready, rfl⟩
      rw [hdispatches.invocations] at h
      obtain ⟨r, -, rfl⟩ := List.mem_map.mp h
      exact ⟨_, r, hdispatches, rfl⟩

theorem directs (h : inv ∈ (v.trace runId).filterMap Incident.invocation?) : v.Directs inv := by
  obtain ⟨intent, r, ⟨compiled, hready, rfl⟩, rfl⟩ := dispatches_of_invocation h
  have hdefault : v.step.name = terminalRunName → v.step.payload.LeavesDirectory →
      compiled.text? "cwd" = some (Template.fill v.scope.vars v.scope.cwd) := by
    intro hshell hleft
    rw [v.scope.ready_shell hshell] at hready
    cases hready
    show ((Template.fillJson v.scope.vars _).field? "cwd").bind Json.asString? = _
    rw [Template.field?_fillJson, field?_applyDefaultCwd hleft]
    rfl
  constructor
  case ran => rfl
  case of_macro =>
    intro kind command hkind hcommand
    rw [v.scope.ready_macro hkind hcommand] at hready
    cases hready
    rfl
  case of_default => exact hdefault
  case of_plain =>
    intro hshell hleft hunknown
    have hsame : Template.fill v.scope.vars v.scope.cwd = v.scope.cwd :=
      Template.fill_eq_self hunknown
    exact (hdefault hshell hleft).trans (congrArg some hsame)

end Stint

/-! ## Runs -/

/-- What is shown of a run that has made these stints was invoked in one of them. -/
theorem Chronicle.invoked {initial : Scope} {run : Run} {stints : List Stint}
    {told : List Incident} (h : Chronicle initial run stints told) {inv : Invocation}
    (hinv : .invoke inv ∈ told.filterMap Incident.signal?) :
    ∃ v ∈ stints, inv ∈ (v.trace run.id).filterMap Incident.invocation? := by
  obtain ⟨later, hpending⟩ := h.pending
  obtain ⟨x, hx, hsignal⟩ := List.mem_filterMap.mp hinv
  have hinvoked : x = .invoked inv := by
    cases x <;> simp [Incident.signal?] at hsignal
    rw [hsignal]
  have hmem : x ∈ stints.flatMap (Stint.trace run.id) := by
    rw [hpending.left]
    exact List.mem_append_left _ hx
  obtain ⟨v, hv, htrace⟩ := List.mem_flatMap.mp hmem
  exact ⟨v, hv, List.mem_filterMap.mpr ⟨x, htrace, by rw [hinvoked]; rfl⟩⟩

namespace Runner

/-- **What directory a command is told of.** Whatever is done around a runner before and after a run
is begun, the run makes stints in its steps, each in the scope that those before it leave behind,
and every command that it invokes is invoked in one of them. The command is run in the directory of
that scope. A git or docker step says the same in its payload; a shell command that leaves its
directory to the default has the text of it with the tokens filled, and so the directory itself only
as far as they ask for nothing that is known. -/
theorem directories_of_run (registry : Registry) (mappings : List Route) (root : String)
    (before : List Act) (id : String) (p : Pipeline) (options : RunOptions) (start : Nat)
    (after : List Act)
    (hid : Table.get? ((fresh registry mappings root).course before).1.runs id = none)
    (hstart : options.start.Begins p start) :
    let history := (fresh registry mappings root).course (before ++ .begin id p options :: after)
    let initial : Scope := ⟨options.vars, options.cwd.getD root, options.dryRun⟩
    ∃ stints : List Stint,
      (∀ earlier v later, stints = earlier ++ v :: later →
        p.steps[v.index]? = some v.step ∧ v.scope = initial.replay earlier) ∧
      ∀ inv, .invoke inv ∈ seen id history.2 → ∃ v ∈ stints,
        inv ∈ (v.trace id).filterMap Incident.invocation? ∧ v.Directs inv := by
  intro history initial
  have hs := startIndex_eq_ok_iff.mpr hstart
  obtain ⟨-, hseen⟩ := course_of_begin (keyed_fresh registry mappings root) hid hs after
  have hroot : ((fresh registry mappings root).course before).1.workspaceRoot = root :=
    (course_setting _ before).2
  generalize hr : ((fresh registry mappings root).course before).1 = r at *
  have hhead : (r.newRun id p options start).phase = .head start := rfl
  have hscope : (r.newRun id p options start).scope = initial := by
    rw [newRun, hroot]
  obtain ⟨stints, hchronicle⟩ :=
    chronicle_course hhead ((r.perform (.begin id p options)).1.movesOf id after)
  obtain ⟨hsame, hpipeline, -⟩ := Run.course_frame (r.newRun id p options start)
    ((r.perform (.begin id p options)).1.movesOf id after)
  rw [hscope] at hchronicle
  refine ⟨stints, fun earlier v later hsplit => ?_, fun inv hinv => ?_⟩
  · have hstep := (hchronicle.step v (by simp [hsplit])).1
    rw [hpipeline] at hstep
    exact ⟨hstep, hchronicle.scopes earlier v later hsplit⟩
  · have htold : .invoke inv ∈ ofSteps (((r.newRun id p options start).course
        ((r.perform (.begin id p options)).1.movesOf id after)).2) := by
      rw [hseen] at hinv
      refine List.mem_filter.mpr ⟨?_, rfl⟩
      simpa using hinv
    rw [← incidents_signals] at htold
    obtain ⟨v, hv, hmem⟩ := hchronicle.invoked htold
    rw [hsame] at hmem
    exact ⟨v, hv, hmem, Stint.directs hmem⟩

/-- A pipeline that goes to a directory with a token in its name, of which the token asks for
something that is known only afterwards. -/
def lateName : Pipeline where
  name := "build"
  steps := [
    { name := "system.setCwd", payload := .obj [("path", .str "$\x7bvar:dir\x7d")] },
    { name := "system.setVar", payload := .obj [("name", .str "dir"), ("value", .str "out")] },
    { name := "git.pull" },
    { name := "terminal.run", payload := .obj [("command", .str "ls")] }]

/-- A run of it, up to the invocation of its last step. -/
def namedLate : List Act :=
  [.advance "r" "", .advance "r" "", .advance "r" "", .advance "r" "", .advance "r" "",
    .advance "r" "", .answer "r" { success := true }, .advance "r" "", .advance "r" "",
    .advance "r" ""]

/-- The invocation that is shown. -/
def invocation? : Signal → Option Invocation
  | .invoke inv => some inv
  | .event _ => none

theorem invoked_late :
    ∃ inv, .invoke inv ∈ seen "r" ((fresh [] [] "/w").course
        ([] ++ .begin "r" lateName {} :: namedLate)).2 ∧
      inv.cwd = "/w/$\x7bvar:dir\x7d" ∧ inv.intent.text? "cwd" = some "/w/out" := by
  have hlast : ((seen "r" ((fresh [] [] "/w").course
      ([] ++ .begin "r" lateName {} :: namedLate)).2).getLast?.bind invocation?).map
        (fun inv => (inv.cwd, inv.intent.text? "cwd")) =
      some ("/w/$\x7bvar:dir\x7d", some "/w/out") := by
    decide +kernel
  obtain ⟨inv, hinv, hsays⟩ := Option.map_eq_some_iff.mp hlast
  obtain ⟨signal, hsignal, hinvoked⟩ := Option.bind_eq_some_iff.mp hinv
  obtain ⟨hcwd, hpayload⟩ := Prod.mk.inj hsays
  cases signal with
  | event e => cases hinvoked
  | invoke i =>
    cases hinvoked
    exact ⟨inv, List.mem_of_getLast? hsignal, hcwd, hpayload⟩

/-- The last step of it is run in one directory and told of another. -/
theorem directories_of_late_name :
    Table.get? ((fresh [] [] "/w").course []).1.runs "r" = none ∧
    StartPoint.Begins lateName .beginning 0 ∧
    ∃ (v : Stint) (inv : Invocation), v.Directs inv ∧ lateName.steps[v.index]? = some v.step ∧
      inv.cwd = "/w/$\x7bvar:dir\x7d" ∧ inv.intent.text? "cwd" = some "/w/out" := by
  refine ⟨rfl, rfl, ?_⟩
  obtain ⟨inv, hinv, hcwd, hpayload⟩ := invoked_late
  obtain ⟨stints, hsteps, hdirects⟩ :=
    directories_of_run [] [] "/w" [] "r" lateName {} 0 namedLate rfl rfl
  obtain ⟨v, hv, -, hv'⟩ := hdirects inv hinv
  obtain ⟨earlier, later, hsplit⟩ := List.append_of_mem hv
  exact ⟨v, inv, hv', (hsteps earlier v later hsplit).1, hcwd, hpayload⟩

/-- A directory that a step leaves to the default need not be the one that it is told. -/
theorem late_name_misleads :
    (∀ step ∈ lateName.steps, step.payload.LeavesDirectory) ∧
    ¬ ∀ inv, .invoke inv ∈ seen "r" ((fresh [] [] "/w").course
        ([] ++ .begin "r" lateName {} :: namedLate)).2 → inv.intent.text? "cwd" = some inv.cwd := by
  constructor
  · intro step hstep
    apply (defaultedCwd_iff step.payload).mp
    revert step
    decide +kernel
  · intro hsame
    obtain ⟨inv, hinv, hcwd, hpayload⟩ := invoked_late
    have hclash := hsame inv hinv
    rw [hcwd, hpayload] at hclash
    revert hclash
    decide

end Runner

end Workflow
