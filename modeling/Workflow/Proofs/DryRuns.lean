import Workflow.Cli.Service
import Workflow.Proofs.RehearsedRuns

/- Dry runs, from the arguments of the program to its commands. What the program does in a run is
   what the course of its runner shows, each command working on the bench (`play_course`). So when
   a dry run is wanted, by a flag or by the configuration, no shell command is started in the run
   of a document nor in the runs that triggers ask for; and when none is, each step is dry that
   asks for it itself, and no other (`dry_as_wanted`). -/
namespace Workflow.Cli

namespace Context

/-- What comes of something shown: an event is printed, a command works on the bench. -/
def shows (c : Context) (b : Bench) : Signal → Bench
  | .event e => c.printEvent b e
  | .invoke i => (Builtin.dispatch b i).1

variable (c : Context)

theorem printEvent_eq (b : Bench) (e : Event) :
    ∃ printed, c.printEvent b e = { b with printed } := by
  unfold printEvent
  split
  · exact ⟨_, rfl⟩
  · split
    · exact ⟨_, rfl⟩
    · exact ⟨b.printed, rfl⟩

theorem printSummary_eq (b : Bench) (p : Pipeline) (status : RunStatus) (executed : Nat) :
    ∃ printed, c.printSummary b p status executed = { b with printed } := by
  unfold printSummary
  split <;> exact ⟨_, rfl⟩

/-- A run that is carried on is a course that begins no other run, and the bench shows it. -/
theorem play_course (n : Nat) (r : Runner) (b : Bench) :
    ∃ acts, (∀ id p options, .begin id p options ∉ acts) ∧
      c.play n r b = ((r.course acts).1, (r.course acts).2.foldl c.shows b) := by
  induction n generalizing r b with
  | zero => exact ⟨[], by simp, rfl⟩
  | succ n ih =>
    unfold play
    cases hnext : r.advance? c.environment.runId c.environment.traceId with
    | none => exact ⟨[], by simp, rfl⟩
    | some next =>
      obtain ⟨r', signal⟩ := next
      have hperform : r.perform (.advance c.environment.runId c.environment.traceId) =
          (r', [signal]) := by
        simp [Runner.perform, hnext]
      cases signal with
      | event e =>
        obtain ⟨acts, hnone, hplay⟩ := ih r' (c.printEvent b e)
        refine ⟨.advance c.environment.runId c.environment.traceId :: acts, by simpa using hnone, ?_⟩
        simp only [Runner.course, hperform, List.singleton_append, List.foldl_cons]
        exact hplay
      | invoke i =>
        obtain ⟨acts, hnone, hplay⟩ :=
          ih (r'.answer i.runId (Builtin.dispatch b i).2) (Builtin.dispatch b i).1
        refine ⟨.advance c.environment.runId c.environment.traceId ::
          .answer i.runId (Builtin.dispatch b i).2 :: acts, by simpa using hnone, ?_⟩
        simp only [Runner.course, hperform, List.singleton_append, List.foldl_cons]
        exact hplay

/-- What the program does for a document is a course of its runner, in which runs are begun with
the given options only; nothing but the bench is printed on besides. -/
theorem runPipeline_course (p : Pipeline) (options : RunOptions) (b : Bench) :
    ∃ acts printed, (∀ id p' options', .begin id p' options' ∈ acts → options' = options) ∧
      (c.runPipeline p options b).1 =
        { (c.runner.course acts).2.foldl c.shows b with printed } := by
  unfold runPipeline
  dsimp only
  cases hbegin : c.runner.begin c.environment.runId p options with
  | error e => exact ⟨[], b.printed, by simp, rfl⟩
  | ok begun =>
    obtain ⟨r, started⟩ := begun
    have hperform : c.runner.perform (.begin c.environment.runId p options) =
        (r, [.event started]) := by
      have hnew : Table.get? c.runner.runs c.environment.runId = none := rfl
      simp [Runner.perform, hnew, hbegin]
    obtain ⟨acts, hnone, hplay⟩ := c.play_course moves r (c.printEvent b started)
    have hbench : (c.runner.course (.begin c.environment.runId p options :: acts)).2.foldl
        c.shows b = (c.play moves r (c.printEvent b started)).2 := by
      simp only [Runner.course, hperform, List.singleton_append, List.foldl_cons]
      rw [hplay]
      rfl
    refine ⟨.begin c.environment.runId p options :: acts, ?_⟩
    rw [hbench]
    have honly : ∀ id p' options',
        .begin id p' options' ∈ Act.begin c.environment.runId p options :: acts →
          options' = options := by
      intro id p' options' hmem
      rcases List.mem_cons.mp hmem with heq | hmem
      · cases heq
        rfl
      · exact absurd hmem (hnone id p' options')
    dsimp only
    split
    · exact ⟨_, honly, rfl⟩
    · obtain ⟨printed, hprinted⟩ := c.printSummary_eq
        (c.play moves r (c.printEvent b started)).2 p _ _
      exact ⟨printed, honly, hprinted⟩

/-- Signals that show none but dry invocations start no shell command and leave the files alone. -/
theorem shows_dry {signals : List Signal} (h : ∀ i, .invoke i ∈ signals → i.dryRun = true)
    (b : Bench) :
    (signals.foldl c.shows b).started = b.started ∧ (signals.foldl c.shows b).tree = b.tree := by
  induction signals generalizing b with
  | nil => exact ⟨rfl, rfl⟩
  | cons signal rest ih =>
    obtain ⟨hstarted, htree⟩ := ih (fun i hi => h i (List.mem_cons_of_mem _ hi)) (c.shows b signal)
    have hone : (c.shows b signal).started = b.started ∧ (c.shows b signal).tree = b.tree := by
      cases signal with
      | event e =>
        obtain ⟨printed, hprinted⟩ := c.printEvent_eq b e
        rw [shows, hprinted]
        exact ⟨rfl, rfl⟩
      | invoke i => exact Builtin.dispatch_dry (h i List.mem_cons_self) b
    exact ⟨hstarted.trans hone.1, htree.trans hone.2⟩

theorem service_asksFor (port : Option Nat) (flag : Bool) (scripts : Table Rehearsal.Script)
    (rules : List (Nat × Rehearsal.Rule)) :
    Rehearsal.WatchStage.AsksFor c.runner (c.runsDry flag)
      { c.service port flag with scripts, rules } := by
  have hunbegun : ∀ m : Manager, Rehearsal.WatchStage.AsksFor c.runner (c.runsDry flag) {
      runner := c.runner
      world := {
        manager := m
        tree := c.environment.tree
        invoker := .runner (c.runsDry flag)
        timestamp := c.environment.now.text }
      trace := c.environment.traceId } :=
    fun m => Rehearsal.asksFor_unbegun rfl rfl rfl rfl
  exact ((hunbegun _).refreshed .start).still rfl rfl rfl

end Context

/-- Whether all runs that acts begin are begun dry, or none is. -/
def BegunDry (wanted : Bool) (acts : List Act) : Prop :=
  ∀ id p options, .begin id p options ∈ acts → options.dryRun = wanted

/-- How the program keeps to what is wanted of runs: dry ones, by the flag or by the configuration,
or others. -/
structure DryAsWanted (c : Context) (flag : Bool) : Prop where
  /-- Whatever is done around the runner and its runs, each invocation is made in a stint in a step
  of a document, and is dry as the runs are wanted, or as the step asks. -/
  invocations : ∀ acts, BegunDry (c.runsDry flag) acts →
    ∀ inv, .invoke inv ∈ (c.runner.course acts).2 →
      ∃ p options v, Runner.Origin c.runner acts inv p options v ∧
        inv.DryAs (c.runsDry flag) v.step
  /-- What is done for a document is such a course, with the commands that come with the program. -/
  command : ∀ path vars fromStep b, ∃ acts printed, BegunDry (c.runsDry flag) acts ∧
    (c.run path vars fromStep flag b).1 =
      { (c.runner.course acts).2.foldl c.shows b with printed }
  /-- If dry runs are wanted, it starts no shell command and leaves the files alone. -/
  idle : c.runsDry flag = true → ∀ path vars fromStep b,
    (c.run path vars fromStep flag b).1.started = b.started ∧
      (c.run path vars fromStep flag b).1.tree = b.tree
  /-- All that the firings of triggers and their chains lead to is such a course, whatever is called
  and edited and whatever handlers and listeners do. -/
  firings : ∀ port scripts rules calls,
    let s := (Rehearsal.callAll (.ofStage { c.service port flag with scripts, rules }) calls).memory
    ∃ acts, BegunDry (c.runsDry flag) acts ∧ s.runner = (c.runner.course acts).1 ∧
      s.invoked = (c.runner.course acts).2.filterMap Runner.invocation?

/-- **Dry runs.** Whether the flag or the configuration asks for it, and whether a document is run
or triggers fire, every invocation of every run is dry if a dry run was asked for, with a note that
says so, and no shell command is started then; otherwise those of the steps that ask for it are dry,
and no others. -/
theorem dry_as_wanted (c : Context) (flag : Bool) : DryAsWanted c flag := by
  have hinvocations : ∀ acts, BegunDry (c.runsDry flag) acts →
      ∀ inv, .invoke inv ∈ (c.runner.course acts).2 →
        ∃ p options v, Runner.Origin c.runner acts inv p options v ∧
          inv.DryAs (c.runsDry flag) v.step := by
    intro acts hbegun inv hinv
    obtain ⟨p, options, v, horigin⟩ := Runner.origin_of_course (by rfl) hinv
    obtain ⟨before, after, start, hacts, -, -⟩ := horigin.begun
    have hwanted : options.dryRun = c.runsDry flag := hbegun inv.runId p options (by simp [hacts])
    exact ⟨p, options, v, horigin, hwanted ▸ horigin.dryAs⟩
  have hcommand : ∀ path vars fromStep b, ∃ acts printed, BegunDry (c.runsDry flag) acts ∧
      (c.run path vars fromStep flag b).1 =
        { (c.runner.course acts).2.foldl c.shows b with printed } := by
    intro path vars fromStep b
    unfold Context.run
    cases c.document path with
    | error f => exact ⟨[], b.printed, by simp [BegunDry], rfl⟩
    | ok document =>
      obtain ⟨acts, printed, honly, hbench⟩ := c.runPipeline_course document.1 _ b
      exact ⟨acts, printed, fun id p options hmem => by rw [honly id p options hmem], hbench⟩
  constructor
  case invocations => exact hinvocations
  case command => exact hcommand
  case idle =>
    intro hdry path vars fromStep b
    obtain ⟨acts, printed, hbegun, hbench⟩ := hcommand path vars fromStep b
    rw [hbench]
    refine c.shows_dry (fun i hi => ?_) b
    obtain ⟨p, options, v, -, hdryAs⟩ := hinvocations acts hbegun i hi
    exact hdryAs.dry_iff.mpr (.inl hdry)
  case firings =>
    intro port scripts rules calls s
    obtain ⟨acts, hrunner, hinvoked, hbegun⟩ := (Rehearsal.asksFor_of_calls
      (p := .ofStage { c.service port flag with scripts, rules })
      (c.service_asksFor port flag scripts rules) calls).follows.course
    exact ⟨acts, hbegun, hrunner, hinvoked⟩

/-- A document whose steps come to shell commands in three ways. -/
def threeWays : Pipeline where
  name := "clean"
  steps := [
    { name := "terminal.run", payload := .obj [("command", .str "true")] },
    { name := "cache.clear", payload := .obj [("command", .str "cd")] },
    { name := "docker.build", payload := .obj [("tag", .str "app")] }]

/-- A program with a mapping of another capability to shell commands. -/
def cleaner : Context where
  environment := { tree := .empty, now := ⟨2024, 1, 1, 0, 0, 0, 0⟩, runId := "r" }
  config := { mappings := [{ capability := "cache.clear", command := "terminal.run" }] }
  base := "/"
  json := false
  verbose := false

/-- None of the three is taken in a dry run, and each of them otherwise. -/
example :
    (cleaner.runPipeline threeWays { dryRun := true } { tree := .empty }).1.started = [] ∧
    (cleaner.runPipeline threeWays {} { tree := .empty }).1.started =
      [("true", "/"), ("cd", "/"), ("docker build -t app .", "/")] := by
  decide +kernel

end Workflow.Cli
