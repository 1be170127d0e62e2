import Workflow.Proofs.DecimalDigits
import Workflow.Proofs.Origins
import Workflow.Proofs.Rehearsals

/- Rehearsals as courses of their runner. The runs of a rehearsal stand under numbers, each
   number under one run (`Runner.Numbered`), so a run that begins there is new. Whatever holds of
   the runner, the world and the invocations that were noted, and is kept by the acts on the
   runner and by those who ask for runs, is kept by all that happens (`Customs.Keeps`). So the
   runner has come by a course, which shows what was noted, and in which runs were begun with no
   other options than those who ask for runs give (`Stage.Follows`); for a manager this means that
   they are all dry or none is (`asksFor_of_calls`). -/
namespace Workflow

/-! ## Numbers of runs -/

theorem Rehearsal.runName_inj {m n : Nat} (h : runName m = runName n) : m = n := by
  refine Number.digits_inj ?_
  simpa [runName, Number.digits] using congrArg String.toList h

namespace Runner

variable {r : Runner} {a : Act}

/-- Whether the runs stand under the first numbers. -/
def Numbered (r : Runner) : Prop :=
  ∀ id, (Table.get? r.runs id).isSome → ∃ k < r.runs.length, id = Rehearsal.runName k

/-- The next number is free. -/
theorem Numbered.fresh (h : r.Numbered) :
    Table.get? r.runs (Rehearsal.runName r.runs.length) = none := by
  refine Option.not_isSome_iff_eq_none.mp fun hknown => ?_
  obtain ⟨k, hk, hname⟩ := h _ hknown
  exact absurd (Rehearsal.runName_inj hname) (Nat.ne_of_gt hk)

/-- No run is lost. -/
theorem length_le_perform (hk : r.Keyed) (a : Act) :
    r.runs.length ≤ (r.perform a).1.runs.length := by
  by_cases hm : ∃ id m, r.moveOf? id a = some m
  · obtain ⟨id, m, hm⟩ := hm
    cases hrun : Table.get? r.runs id with
    | none => exact Nat.le_of_eq (congrArg List.length (perform_miss hrun hm).1.symm)
    | some run =>
      rcases (perform_hit hk hrun hm).2 with hruns | ⟨hruns, -⟩
      · rw [hruns]
        exact Table.length_le_insert ..
      · exact Nat.le_of_eq (congrArg List.length hruns.symm)
  · have hm : ∀ id, r.moveOf? id a = none := fun id =>
      Option.eq_none_iff_forall_not_mem.mpr fun m h => hm ⟨id, m, h⟩
    rcases perform_none hm with ⟨id, p, options, rfl⟩ | ⟨hruns, -⟩
    · rcases r.perform_begin id p options with ⟨start, -, -, hruns, -⟩ | ⟨-, hsame⟩
      · rw [hruns]
        exact Table.length_le_insert ..
      · exact Nat.le_of_eq (congrArg (·.1.runs.length) hsame.symm)
    · exact Nat.le_of_eq (congrArg List.length hruns.symm)

/-- An act that begins no run makes none known. -/
theorem Numbered.perform (h : r.Numbered) (hk : r.Keyed)
    (ha : ∀ id p options, a ≠ .begin id p options) : (r.perform a).1.Numbered := by
  intro id hknown
  have hbefore : (Table.get? r.runs id).isSome := by
    refine Option.isSome_iff_ne_none.mpr fun hunknown => ?_
    rw [unknown_perform hk hunknown fun p options _ heq => absurd heq (ha id p options)] at hknown
    cases hknown
  obtain ⟨k, hlt, hname⟩ := h id hbefore
  exact ⟨k, Nat.lt_of_lt_of_le hlt (length_le_perform hk a), hname⟩

/-- A run that begins takes the next number. -/
theorem Numbered.perform_begin (h : r.Numbered) (p : Pipeline) (options : RunOptions) :
    (r.perform (.begin (Rehearsal.runName r.runs.length) p options)).1.Numbered := by
  rcases r.perform_begin (Rehearsal.runName r.runs.length) p options with
    ⟨start, -, -, hruns, -⟩ | ⟨-, hsame⟩
  · intro id hknown
    rw [hruns, Table.get?_insert] at hknown
    rw [hruns, Table.length_insert_of_unknown h.fresh]
    split at hknown
    · rename_i hid
      exact ⟨r.runs.length, Nat.lt_succ_self _, hid.symm⟩
    · obtain ⟨k, hlt, hname⟩ := h id hknown
      exact ⟨k, Nat.lt_succ_of_lt hlt, hname⟩
  · rw [hsame]
    exact h

end Runner

namespace Rehearsal

/-! ## What a rehearsal keeps -/

/-- The invocation that an entry is of. -/
def Entry.invocation? : Entry → Option Invocation
  | .invoked i => some i
  | _ => none

/-- The invocations that were noted, in order. -/
def Stage.invoked (s : Stage ω τ) : List Invocation := s.log.reverse.filterMap (·.2.invocation?)

theorem Stage.invoked_note (s : Stage ω τ) (e : Entry) :
    (s.note e).invoked = s.invoked ++ e.invocation?.toList := by
  simp only [invoked, note, List.reverse_cons, List.filterMap_append]
  cases h : e.invocation? <;> simp [h]

/-- Whether something that holds of stages is kept by what happens in a rehearsal: it is about the
runner, the world and the invocations that were noted, it is kept by the acts on the runner, and
those who ask for runs keep it. -/
structure Customs.Keeps (customs : Customs ω τ) (P : Stage ω τ → Prop) : Prop where
  still : ∀ {s s' : Stage ω τ}, P s → s'.runner = s.runner → s'.world = s.world →
    s'.invoked = s.invoked → P s'
  act : ∀ {s s' : Stage ω τ} {a : Act}, P s → (∀ id p options, a ≠ .begin id p options) →
    s'.runner = (s.runner.perform a).1 → s'.world = s.world →
    s'.invoked = s.invoked ++ (s.runner.perform a).2.filterMap Runner.invocation? → P s'
  errand : ∀ {s : Stage ω τ}, P s → ∀ task, P (customs.errand s task).1
  ended : ∀ {s : Stage ω τ}, P s → ∀ id, P (customs.ended s id).1

section Keeps

variable {ω τ : Type} {customs : Customs ω τ} {P : Stage ω τ → Prop} {s : Stage ω τ}

namespace Stage

theorem hear_keeps (h : customs.Keeps P) (hp : P s) (listener : Nat) (e : Event) :
    P (s.hear listener e).1 := by
  have hnoted : (s.note (.heard listener e)).invoked = s.invoked :=
    (s.invoked_note _).trans (List.append_nil _)
  unfold hear
  dsimp only
  split
  · exact h.still hp rfl rfl hnoted
  · split <;> exact h.still hp rfl rfl hnoted

theorem wake_same (s : Stage ω τ) (id : String) :
    (s.wake id).runner = s.runner ∧ (s.wake id).invoked = s.invoked := by
  unfold wake
  split <;> exact ⟨rfl, rfl⟩

theorem done_same (s : Stage ω τ) (target : Option Nat) (action : ControlAction)
    (changed : Option String) (result : Option Bool) (event : Option Event) :
    (control.done target action s changed result event).1.runner = s.runner ∧
      (control.done target action s changed result event).1.invoked = s.invoked := by
  cases changed with
  | none => exact ⟨rfl, rfl⟩
  | some id => exact s.wake_same id

theorem control_keeps (h : customs.Keeps P) (hp : P s) (target : Option Nat)
    (action : ControlAction) : P (s.control target action).1 := by
  have hevents : ∀ events : List Event,
      (events.map Signal.event).filterMap Runner.invocation? = [] := by
    intro events
    simp [List.filterMap_map, Function.comp_def, Runner.invocation?]
  have hworld := s.control_world target action
  revert hworld
  unfold control
  cases target with
  | none =>
    intro hworld
    refine h.act (a := .controlCurrent action) hp (by simp) (done_same ..).1 hworld ?_
    rw [(done_same ..).2, Runner.perform, hevents, List.append_nil]
    rfl
  | some number =>
    dsimp only
    intro hworld
    split at hworld
    · rename_i hhandle
      rw [if_pos hhandle]
      refine h.act (a := .control (runName number) action) hp (by simp) (done_same ..).1 hworld ?_
      rw [(done_same ..).2, Runner.perform, hevents, List.append_nil]
      rfl
    · rename_i hhandle
      rw [if_neg hhandle]
      exact h.still hp (done_same ..).1 hworld (done_same ..).2

theorem invoke_same (s : Stage ω τ) (i : Invocation) :
    (s.invoke i).1.runner = s.runner ∧ (s.invoke i).1.invoked = s.invoked ++ [i] := by
  have hnoted : (s.note (.invoked i)).invoked = s.invoked ++ [i] := s.invoked_note _
  unfold invoke
  dsimp only
  split <;> exact ⟨rfl, hnoted⟩

theorem take_keeps (h : customs.Keeps P) (hp : P s) (t : Turn τ) : P (s.take customs t).1 := by
  cases t with
  | errand task => exact h.errand hp task
  | answer id outcome =>
    refine h.act (a := .answer id outcome) hp (by simp) rfl rfl ?_
    exact s.invoked_note (.answered id outcome)
  | advance id =>
    have hact : ∀ {runner : Runner} {signal : Signal} {s' : Stage ω τ},
        s.runner.advance? id s.trace = some (runner, signal) → s'.runner = runner →
        s'.world = s.world → s'.invoked = s.invoked ++ [signal].filterMap Runner.invocation? →
        P s' := by
      intro runner signal s' hnext hrunner hworld hinvoked
      refine h.act (a := .advance id s.trace) hp (by simp) ?_ hworld ?_
      · simpa [Runner.perform, hnext] using hrunner
      · simpa [Runner.perform, hnext] using hinvoked
    unfold take
    dsimp only
    split
    · rename_i runner e hnext
      exact hact hnext rfl rfl (List.append_nil _).symm
    · rename_i runner i hnext
      obtain ⟨hrunner, hinvoked⟩ := invoke_same { s with runner } i
      exact hact hnext hrunner (invoke_world { s with runner } i) hinvoked
    · split
      · exact hp
      · split
        · exact h.ended hp id
        · split
          · exact h.still hp rfl rfl rfl
          · exact hp

theorem perform_keeps (h : customs.Keeps P) (hp : P s) (deed : Deed τ) :
    P (s.perform customs deed).1 := by
  unfold perform
  cases deed with
  | turn t => exact take_keeps h hp t
  | control target action => exact control_keeps h hp target action
  | rest id delay outcome =>
    dsimp only
    split
    · exact take_keeps h hp _
    · exact h.still hp rfl rfl rfl
  | note action target result =>
    exact h.still hp rfl rfl ((s.invoked_note _).trans (List.append_nil _))

end Stage

namespace Play

theorem step_keeps (h : customs.Keeps P) {p : Play ω τ} (hp : P p.memory) :
    P (Exchange.step (Stage.conduct customs) p).memory := by
  unfold Exchange.step
  split
  · exact hp
  · exact Stage.hear_keeps h hp _ _
  · exact hp
  · exact hp
  · exact hp
  · exact Stage.perform_keeps h hp _

/-- What is kept of stages is kept of rehearsals. -/
theorem kept_keeps (h : customs.Keeps P) : Kept customs fun p => P p.memory where
  step := step_keeps h
  turn hp _ := h.still hp rfl rfl rfl
  arrive hp _ := h.still hp rfl rfl rfl

end Play

end Keeps

/-! ## The course of a rehearsal -/

/-- Whether a stage has come from a runner by a course that shows the invocations that were noted,
and in which runs were begun with such options only. -/
structure Stage.Follows (r : Runner) (allowed : RunOptions → Prop) (s : Stage ω τ) : Prop where
  course : ∃ acts, s.runner = (r.course acts).1 ∧
    s.invoked = (r.course acts).2.filterMap Runner.invocation? ∧
    ∀ id p options, .begin id p options ∈ acts → allowed options
  keyed : s.runner.Keyed
  numbered : s.runner.Numbered

namespace Stage.Follows

variable {ω τ : Type} {r : Runner} {allowed : RunOptions → Prop} {s s' : Stage ω τ}

theorem still (h : s.Follows r allowed) (hrunner : s'.runner = s.runner)
    (hinvoked : s'.invoked = s.invoked) : s'.Follows r allowed := by
  obtain ⟨hcourse, hkeyed, hnumbered⟩ := h
  constructor
  case course => rwa [hrunner, hinvoked]
  case keyed => rwa [hrunner]
  case numbered => rwa [hrunner]

/-- One more act at the end of a course. -/
theorem course_concat (h : s.Follows r allowed) {a : Act}
    (ha : ∀ id p options, a = .begin id p options → allowed options)
    (hrunner : s'.runner = (s.runner.perform a).1)
    (hinvoked : s'.invoked =
      s.invoked ++ (s.runner.perform a).2.filterMap Runner.invocation?) :
    ∃ acts, s'.runner = (r.course acts).1 ∧
      s'.invoked = (r.course acts).2.filterMap Runner.invocation? ∧
      ∀ id p options, .begin id p options ∈ acts → allowed options := by
  obtain ⟨acts, hcourse, hshown, hallowed⟩ := h.course
  refine ⟨acts ++ [a], ?_, ?_, fun id p options hmem => ?_⟩
  · rw [r.course_append, ← hcourse, hrunner]
    rfl
  · rw [r.course_append, List.filterMap_append, ← hcourse, ← hshown, hinvoked]
    simp [Runner.course]
  · rcases List.mem_append.mp hmem with hmem | hmem
    · exact hallowed id p options hmem
    · exact ha id p options (List.mem_singleton.mp hmem).symm

theorem act (h : s.Follows r allowed) {a : Act} (ha : ∀ id p options, a ≠ .begin id p options)
    (hrunner : s'.runner = (s.runner.perform a).1)
    (hinvoked : s'.invoked =
      s.invoked ++ (s.runner.perform a).2.filterMap Runner.invocation?) :
    s'.Follows r allowed := by
  constructor
  case course =>
    exact h.course_concat (fun id p options heq => absurd heq (ha id p options)) hrunner hinvoked
  case keyed =>
    rw [hrunner]
    exact Runner.keyed_perform h.keyed a
  case numbered =>
    rw [hrunner]
    exact h.numbered.perform h.keyed ha

/-- A run that a stage begins is one more of its course. -/
theorem begin (h : s.Follows r allowed) {p : Pipeline} {options : RunOptions} {id : String}
    {actions : List (StageAction τ)} (hallowed : allowed options)
    (hbegin : s.begin p options = .ok (s', id, actions)) : s'.Follows r allowed := by
  unfold Stage.begin at hbegin
  cases hrun : s.runner.begin (runName s.runner.runs.length) p options with
  | error e => simp [hrun, bind, Except.bind] at hbegin
  | ok begun =>
    simp only [hrun, bind, Except.bind, Except.ok.injEq, Prod.mk.injEq] at hbegin
    obtain ⟨rfl, -, -⟩ := hbegin
    have hact : s.runner.perform (.begin (runName s.runner.runs.length) p options) =
        (begun.1, [.event begun.2]) := by
      simp [Runner.perform, h.numbered.fresh, hrun]
    have hnumbered := h.numbered.perform_begin p options
    have hkeyed := Runner.keyed_perform h.keyed (.begin (runName s.runner.runs.length) p options)
    rw [hact] at hnumbered hkeyed
    constructor
    case course =>
      refine h.course_concat (a := .begin (runName s.runner.runs.length) p options) ?_ ?_ ?_
      · rintro _ _ _ ⟨⟩
        exact hallowed
      · rw [hact]
      · rw [hact]
        exact (List.append_nil _).symm
    case keyed => exact hkeyed
    case numbered => exact hnumbered

end Stage.Follows

/-! ## The runs of a manager -/

namespace WatchStage

/-- Whether the runs of a manager are made by a runner that begins them all dry, or none of them,
and this has been so in the whole course of it. -/
structure AsksFor (r : Runner) (dry : Bool) (s : WatchStage) : Prop where
  follows : s.Follows r (·.dryRun = dry)
  invoker : s.world.invoker = .runner dry

variable {r : Runner} {dry : Bool} {s s' : WatchStage}

theorem AsksFor.still (h : s.AsksFor r dry) (hrunner : s'.runner = s.runner)
    (hinvoked : s'.invoked = s.invoked) (hinvoker : s'.world.invoker = s.world.invoker) :
    s'.AsksFor r dry :=
  ⟨h.follows.still hrunner hinvoked, hinvoker.trans h.invoker⟩

theorem manage_same (s : WatchStage) (m : Manager) :
    (s.manage m).runner = s.runner ∧ (s.manage m).invoked = s.invoked := by
  have hawaits : ∀ (alarms : List (Alarm AlarmKey AlarmTask)) (s : WatchStage),
      (alarms.foldl await s).runner = s.runner ∧ (alarms.foldl await s).invoked = s.invoked := by
    intro alarms
    induction alarms with
    | nil => exact fun s => ⟨rfl, rfl⟩
    | cons a rest ih =>
      intro s
      have hone : (s.await a).runner = s.runner ∧ (s.await a).invoked = s.invoked := by
        unfold await errands
        split <;> exact ⟨rfl, rfl⟩
      exact ⟨(ih _).1.trans hone.1, (ih _).2.trans hone.2⟩
  exact hawaits _ _

theorem AsksFor.manage (h : s.AsksFor r dry) (m : Manager) : (s.manage m).AsksFor r dry :=
  h.still (s.manage_same m).1 (s.manage_same m).2 (by rw [manage_world])

theorem AsksFor.errands (h : s.AsksFor r dry) (es : List Errand) : (s.errands es).AsksFor r dry :=
  h.still rfl rfl rfl

theorem AsksFor.refreshed (h : s.AsksFor r dry) (change : Manager → Manager) :
    (s.refreshed change).AsksFor r dry :=
  h.manage _

theorem AsksFor.ask (h : s.AsksFor r dry) (c : Chain) : (s.ask c).1.AsksFor r dry := by
  have hnoted : AsksFor r dry { s with
      world := { s.world with requests := (s.now, c.request) :: s.world.requests } } :=
    h.still rfl rfl rfl
  unfold WatchStage.ask
  dsimp only at hnoted ⊢
  rw [h.invoker] at hnoted ⊢
  dsimp only
  cases Pipeline.load s.world.tree c.request.pipeline with
  | error e => exact hnoted
  | ok pipeline =>
    simp only [bind, Except.bind]
    split
    · exact hnoted
    · rename_i begun id actions hbegin
      have hworld := (Stage.begin_runs hbegin).1
      have hfollows := hnoted.follows.begin rfl hbegin
      exact ⟨hfollows.still rfl rfl, (congrArg Watch.invoker hworld).trans hnoted.invoker⟩

theorem AsksFor.goOn (h : s.AsksFor r dry) (c : Chain) (success : Bool) :
    (s.goOn c success).1.AsksFor r dry := by
  unfold WatchStage.goOn
  split
  · exact h.ask _
  · exact h

theorem AsksFor.run (h : s.AsksFor r dry) (e : Errand) : (s.run e).1.AsksFor r dry := by
  cases e with
  | ring number =>
    have hring := h.manage (s.world.manager.ring s.now s.world.timestamp number).1
    unfold WatchStage.run
    dsimp only
    cases (s.world.manager.ring s.now s.world.timestamp number).2 with
    | nothing => exact hring
    | firing f => exact hring.errands _
    | refresh => exact hring.errands _
  | begin f => exact h.ask _
  | goOn c success => exact h.goOn c success
  | refresh => exact h.refreshed _

theorem AsksFor.ended (h : s.AsksFor r dry) (id : String) : (s.ended id).1.AsksFor r dry := by
  unfold WatchStage.ended
  split
  · exact h
  · rename_i chain _
    have herased : AsksFor r dry
        { s with world := { s.world with waiting := Table.erase s.world.waiting id } } :=
      h.still rfl rfl rfl
    exact herased.goOn chain _

theorem customs_asksFor (r : Runner) (dry : Bool) : customs.Keeps (AsksFor r dry) where
  still h hrunner hworld hinvoked := h.still hrunner hinvoked (by rw [hworld])
  act h ha hrunner hworld hinvoked :=
    ⟨h.follows.act ha hrunner hinvoked, hworld ▸ h.invoker⟩
  errand h e := h.run e
  ended h id := h.ended id

theorem AsksFor.call (h : s.AsksFor r dry) (c : ManagerCall) : (s.call c).1.AsksFor r dry := by
  cases c with
  | start => exact h.refreshed _
  | refresh times =>
    exact h.refreshed fun m => (List.range times).foldl (fun m _ => m.requestRefresh) m
  | fire id event => exact (h.manage _).errands _
  | request request => exact (h.manage _).errands _
  | change path kind => exact h.manage _
  | advance ms => exact h
  | setPort port => exact h.refreshed fun m => (m.setPort port).requestRefresh
  | shutdown => exact h.manage _

end WatchStage

/-- **The runs of a manager are a course of its runner.** Whatever is called and edited, with the
alarms that ring and the chains that go on meanwhile, the runner has come by a course in which every
run was begun dry, or none was, as those who set up the manager wanted it; and the course shows the
invocations that were noted. -/
theorem asksFor_of_calls {p : Play Watch Errand} {r : Runner} {dry : Bool}
    (h : WatchStage.AsksFor r dry p.memory) (calls : List (ManagerCall ⊕ FileTree)) :
    WatchStage.AsksFor r dry (callAll p calls).memory := by
  induction calls generalizing p with
  | nil => exact h
  | cons c rest ih =>
    cases c with
    | inr tree => exact ih (WatchStage.AsksFor.still h rfl rfl rfl)
    | inl c =>
      refine ih ?_
      have hcall := WatchStage.AsksFor.call h c
      have hkept := Play.kept_keeps (WatchStage.customs_asksFor r dry)
      cases c with
      | advance ms => exact hkept.advanceWithin _ _ h
      | start | refresh | fire | request | change | setPort | shutdown =>
        exact hkept.settleWithin _ hcall

/-- A manager of whose runs none has begun. -/
theorem asksFor_unbegun {s : WatchStage} {r : Runner} {dry : Bool} (hrunner : s.runner = r)
    (hruns : r.runs = []) (hlog : s.log = []) (hinvoker : s.world.invoker = .runner dry) :
    WatchStage.AsksFor r dry s := by
  subst hrunner
  refine ⟨⟨⟨[], rfl, by rw [Stage.invoked, hlog]; rfl, by simp⟩, Runner.keyed_of_unbegun hruns, ?_⟩,
    hinvoker⟩
  intro id hknown
  rw [Runner.unknown_of_unbegun hruns] at hknown
  cases hknown

end Rehearsal

end Workflow
