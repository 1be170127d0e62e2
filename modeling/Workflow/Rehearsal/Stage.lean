import Workflow.Bus.Exchange
import Workflow.Rehearsal.Script
import Workflow.Runner

/- A runner with scripted handlers in virtual time. Runs take turns: one is moved on
   until it waits for a handler or is held back, and only then the next one that is
   ready. What listeners and handlers do to a run is done at once, inside the call
   in which they do it. -/
namespace Workflow.Rehearsal

/-- An entry of the log of a rehearsal. -/
inductive Entry where
  /-- A listener heard of an event. -/
  | heard (listener : Nat) (event : Event)
  | invoked (invocation : Invocation)
  | answered (runId : String) (outcome : Outcome)
  /-- An action was done; the last part tells whether it changed anything, if its run was there. -/
  | controlled (action : ControlAction) (target : Option Nat) (result : Option Bool)
  | listed (active : List String)
  deriving Inhabited

/-- What is done next: a move of a run, or an errand of those who ask for runs. -/
inductive Turn (τ : Type) where
  | advance (runId : String)
  | answer (runId : String) (outcome : Outcome)
  | errand (task : τ)
  deriving Inhabited

/-- Work that is done around the bus of a rehearsal. -/
inductive Deed (τ : Type) where
  | turn (turn : Turn τ)
  /-- An action on the runner, or on the run of a number. -/
  | control (target : Option Nat) (action : ControlAction)
  /-- The handler of a run has made its moves and waits before it answers. -/
  | rest (runId : String) (delay : Nat) (outcome : Outcome)
  /-- An action that was done is noted. -/
  | note (action : ControlAction) (target : Option Nat) (result : Option Bool)
  deriving Inhabited

/-- A rehearsal between two calls, with a world `ω` of those who ask for runs and their errands
`τ`. -/
structure Stage (ω τ : Type) where
  runner : Runner
  world : ω
  scripts : Table Script := []
  /-- How often each command has been called. -/
  calls : Table Nat := []
  /-- The rules of the listeners, each with the number of its listener. -/
  rules : List (Nat × Rule) := []
  now : Nat := 0
  /-- The turns that are due, in the order in which they came up. -/
  ready : List (Turn τ) := []
  /-- The runs that are held back in front of a step. -/
  held : List String := []
  /-- The turns to come, with their times, in the order in which they were asked for. -/
  sleeping : List (Nat × Turn τ) := []
  /-- What was noted, with its time, the latest first. -/
  log : List (Nat × Entry) := []
  /-- The trace id that stands for those made up for a step. -/
  trace : String := ""
  deriving Inhabited

/-- An action around the bus of a rehearsal, whose subscribers are known by their numbers. -/
abbrev StageAction (τ : Type) := BusAction Unit Event (Deed τ)

/-- What those who ask for runs do. -/
structure Customs (ω τ : Type) where
  /-- An errand is run. -/
  errand : Stage ω τ → τ → Stage ω τ × List (StageAction τ)
  /-- A run is over, and its end has been announced. -/
  ended : Stage ω τ → String → Stage ω τ × List (StageAction τ)

/-- The customs where nobody asks for runs. -/
def Customs.none : Customs Unit Empty where
  errand s _ := (s, [])
  ended s _ := (s, [])

namespace Stage

variable {ω τ : Type}

/-- The stage with an entry noted. -/
def note (s : Stage ω τ) (e : Entry) : Stage ω τ := { s with log := (s.now, e) :: s.log }

/-- What a listener does with an event: it is noted, and the first rule that it fits is used up. -/
def hear (s : Stage ω τ) (listener : Nat) (e : Event) : Stage ω τ × List (StageAction τ) :=
  let s := s.note (.heard listener e)
  match s.rules.findIdx? fun (l, rule) => l == listener && rule.applies e with
  | none => (s, [])
  | some i =>
    match s.rules[i]? with
    | some (_, rule) =>
      ({ s with rules := s.rules.eraseIdx i }, [.work (.control rule.target rule.action)])
    | none => (s, [])

/-- A run made ready again when it was held back. -/
def wake (s : Stage ω τ) (runId : String) : Stage ω τ :=
  if s.held.contains runId then
    { s with held := s.held.filter (· != runId), ready := s.ready ++ [.advance runId] }
  else s

/-- An action on the runner or on the run of a number, whose handle is gone when it has ended. It
is noted after all that its announcement gives rise to. -/
def control (s : Stage ω τ) (target : Option Nat) (action : ControlAction) :
    Stage ω τ × List (StageAction τ) :=
  match target with
  | none =>
    let (runner, changed, event) := s.runner.controlCurrent action
    done { s with runner } (s.runner.current.filter fun _ => changed) (some changed) event
  | some number =>
    let id := runName number
    if s.runner.hasHandle id then
      let (runner, changed, event) := s.runner.control id action
      done { s with runner } (if changed then some id else none) (some changed) event
    else done s none none none
where
  /-- The changed run woken, and what comes next. -/
  done (s : Stage ω τ) (changed : Option String) (result : Option Bool) (event : Option Event) :
      Stage ω τ × List (StageAction τ) :=
    (changed.elim s s.wake,
      event.toList.map .emit ++ [.work (.note action target result)])

/-- A command invoked: the actions of its handler, and the wait before its answer. -/
def invoke (s : Stage ω τ) (i : Invocation) : Stage ω τ × List (StageAction τ) :=
  let s := s.note (.invoked i)
  match Table.get? s.scripts i.command with
  | none => (s, [.work (.rest i.runId 0 (.unbound i.source i.command))])
  | some script =>
    let call := (Table.get? s.calls i.command).getD 0
    let cue := script.cue call
    ({ s with calls := Table.insert i.command (call + 1) s.calls },
      cue.actions.map (fun a => .work (.control none a))
        ++ [.work (.rest i.runId cue.delay (cue.outcome i.payload))])

/-- The stage with a run begun under the next number, and what comes next, or why it was not. -/
def begin (s : Stage ω τ) (pipeline : Pipeline) (options : RunOptions) :
    Except PipelineError (Stage ω τ × String × List (StageAction τ)) := do
  let id := runName s.runner.runs.length
  let (runner, event) ← s.runner.begin id pipeline options
  .ok ({ s with runner }, id, [.emit event, .work (.turn (.advance id))])

/-- A turn taken. -/
def take (customs : Customs ω τ) (s : Stage ω τ) :
    Turn τ → Stage ω τ × List (StageAction τ)
  | .errand task => customs.errand s task
  | .answer id outcome =>
    let s := s.note (.answered id outcome)
    ({ s with runner := s.runner.answer id outcome }, [.work (.turn (.advance id))])
  | .advance id =>
    match s.runner.advance? id s.trace with
    | some (runner, .event e) => ({ s with runner }, [.emit e, .work (.turn (.advance id))])
    | some (runner, .invoke i) => { s with runner }.invoke i
    | none =>
      match Table.get? s.runner.runs id with
      | none => (s, [])
      | some run =>
        if run.isOver then customs.ended s id
        else if run.isHeld then ({ s with held := s.held ++ [id] }, [])
        else (s, [])

/-- A deed done. -/
def perform (customs : Customs ω τ) (s : Stage ω τ) :
    Deed τ → Stage ω τ × List (StageAction τ)
  | .turn t => s.take customs t
  | .control target action => s.control target action
  | .rest id delay outcome =>
    if delay = 0 then s.take customs (.answer id outcome)
    else ({ s with sleeping := s.sleeping ++ [(s.now + delay, .answer id outcome)] }, [])
  | .note action target result => (s.note (.controlled action target result), [])

/-- What the listeners and the deeds of a rehearsal do. -/
def conduct (customs : Customs ω τ) : BusRules Unit Event (Deed τ) (Stage ω τ) where
  hear s listener _ event := s.hear listener event
  work s deed := s.perform customs deed

end Stage

/-- A rehearsal: the stage and the bus around it. -/
abbrev Play (ω τ : Type) := Exchange Unit Event (Deed τ) (Stage ω τ)

namespace Play

variable {ω τ : Type}

/-- A bound on the steps of one settling. -/
def fuel : Nat := 100000000

/-- A rehearsal that nothing has happened in, with one listener. -/
def ofStage (stage : Stage ω τ) : Play ω τ := { bus := Bus.subscribe {} (), memory := stage }

/-- All that is due done: the agenda, then the ready turns one after the other. -/
def settleWithin (customs : Customs ω τ) : Nat → Play ω τ → Play ω τ
  | 0, p => p
  | n + 1, p =>
    let p := Exchange.settle (Stage.conduct customs) fuel p
    match p.memory.ready with
    | [] => p
    | t :: rest =>
      settleWithin customs n
        ({ p with memory := { p.memory with ready := rest } }.ahead [.work (.turn t)])

/-- All that is due done. -/
def settled (customs : Customs ω τ) (p : Play ω τ) : Play ω τ := settleWithin customs fuel p

/-- The time of the next turn to come. -/
def nextDue? (p : Play ω τ) : Option Nat := (p.memory.sleeping.map (·.1)).min?

/-- The turns of a time made ready, the time being now. -/
def arrive (p : Play ω τ) (time : Nat) : Play ω τ :=
  let (due, later) := p.memory.sleeping.partition (·.1 == time)
  { p with memory := { p.memory with
      now := time, sleeping := later, ready := p.memory.ready ++ due.map (·.2) } }

/-- The rehearsal at a later time, all that was due until then being done. -/
def advanceWithin (customs : Customs ω τ) : Nat → Nat → Play ω τ → Play ω τ
  | 0, _, p => p
  | n + 1, time, p =>
    match p.nextDue? with
    | some due =>
      if due ≤ time then advanceWithin customs n time (settled customs (arrive p due))
      else arrive p time
    | none => arrive p time

/-- The rehearsal at a later time, all that was due until then being done. -/
def advanceTo (customs : Customs ω τ) (p : Play ω τ) (time : Nat) : Play ω τ :=
  advanceWithin customs fuel time p

end Play

end Workflow.Rehearsal
