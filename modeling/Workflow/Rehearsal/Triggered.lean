import Workflow.Http.Host
import Workflow.Manager.Refresh
import Workflow.Manager.Webhook
import Workflow.Rehearsal.Stage

/- A manager of triggers in virtual time. Its firings, and the refreshes that its
   alarms ask for, are errands that take their turns with the runs. The runs that it
   asks for are either run or answered from a script. -/
namespace Workflow.Rehearsal

/-- How the runs that are asked for come about. -/
inductive Invoker where
  /-- Each file name has the outcomes of its runs, of which the last one is repeated; none stands
  for a run that cannot begin. A run takes some time. -/
  | scripted (results : Table (List (Option RunStatus))) (delay : Nat)
  /-- The runner runs them. -/
  | runner (dryRun : Bool)
  deriving Inhabited

/-- What is done for a manager. -/
inductive Errand where
  | ring (alarm : Nat)
  | begin (firing : Firing)
  /-- The last run of a chain has ended. -/
  | goOn (chain : Chain) (success : Bool)
  | refresh
  deriving Inhabited

/-- The manager and what surrounds it. -/
structure Watch where
  manager : Manager
  tree : FileTree
  invoker : Invoker
  /-- The time of day that its timers tell. -/
  timestamp : String
  /-- How often a run of each file name has been asked for. -/
  asked : Table Nat := []
  /-- The chains that wait for a run, by its id. -/
  waiting : Table Chain := []
  /-- The runs asked for, with the times, the latest first. -/
  requests : List (Nat × RunRequest) := []
  deriving Inhabited

/-- A rehearsal of a manager between two calls. -/
abbrev WatchStage := Stage Watch Errand

namespace WatchStage

/-- The stage with errands due behind all that is due. -/
def errands (s : WatchStage) (es : List Errand) : WatchStage :=
  { s with ready := s.ready ++ es.map .errand }

/-- The stage with a turn at an alarm's time. -/
def await (s : WatchStage) (a : Alarm AlarmKey AlarmTask) : WatchStage :=
  if a.due ≤ s.now then s.errands [.ring a.number]
  else { s with sleeping := s.sleeping ++ [(a.due, .errand (.ring a.number))] }

/-- The stage with the manager having changed. Each alarm that it has set is waited for. -/
def manage (s : WatchStage) (m : Manager) : WatchStage :=
  let fresh := m.alarms.live.filter (s.world.manager.alarms.next ≤ ·.number)
  fresh.foldl await { s with world := { s.world with manager := m } }

/-- The stage after the refreshes that a change of the manager asks for. -/
def refreshed (s : WatchStage) (change : Manager → Manager) : WatchStage :=
  s.manage ((change s.world.manager).settleRefresh s.now s.world.tree
    (Http.isLocalHost s.world.manager.settings.webhookHost))

/-- The outcome that a script has for the next run of a pipeline. -/
def scripted (results : Table (List (Option RunStatus))) (name : String) (call : Nat) :
    Option RunStatus :=
  let outcomes := (Table.get? results name).getD []
  match outcomes[call]? with
  | some r => r
  | none => outcomes.getLast?.getD (some .success)

/-- The last run of a chain asked for. -/
def ask (s : WatchStage) (chain : Chain) : WatchStage × List (StageAction Errand) :=
  let request := chain.request
  let s := { s with world := { s.world with requests := (s.now, request) :: s.world.requests } }
  match s.world.invoker with
  | .scripted results delay =>
    let name := (Path.fileName? request.pipeline).getD ""
    let call := (Table.get? s.world.asked name).getD 0
    let s := { s with world := { s.world with
      asked := Table.insert name (call + 1) s.world.asked } }
    let errand := Errand.goOn chain (scripted results name call == some .success)
    if delay = 0 then (s, [.work (.turn (.errand errand))])
    else ({ s with sleeping := s.sleeping ++ [(s.now + delay, .errand errand)] }, [])
  | .runner dryRun =>
    let begun := do
      let pipeline ← Pipeline.load s.world.tree request.pipeline
      s.begin pipeline { start := request.start, vars := request.vars, dryRun }
    match begun with
    | .error _ => (s, [])
    | .ok (s, id, actions) =>
      ({ s with world := { s.world with waiting := Table.insert id chain s.world.waiting } },
        actions)

/-- A chain carried on when its last run was a success. -/
def goOn (s : WatchStage) (chain : Chain) (success : Bool) :
    WatchStage × List (StageAction Errand) :=
  match chain.after? s.world.manager.settings s.world.tree success with
  | some next => s.ask next
  | none => (s, [])

/-- An errand run. -/
def run (s : WatchStage) : Errand → WatchStage × List (StageAction Errand)
  | .ring number =>
    let (m, rung) := s.world.manager.ring s.now s.world.timestamp number
    let s := s.manage m
    match rung with
    | .nothing => (s, [])
    | .firing firing => (s.errands [.begin firing], [])
    | .refresh => (s.errands [.refresh], [])
  | .begin firing => s.ask (.begin firing.definition firing.event)
  | .goOn chain success => s.goOn chain success
  | .refresh => (s.refreshed .requestRefresh, [])

/-- A run that is over lets go on the chain that waits for it. -/
def ended (s : WatchStage) (id : String) : WatchStage × List (StageAction Errand) :=
  match Table.get? s.world.waiting id with
  | none => (s, [])
  | some chain =>
    let success := match s.runner.result? id with
      | some (.ok status) => status.isSuccess
      | _ => false
    let waiting := Table.erase s.world.waiting id
    goOn { s with world := { s.world with waiting } } chain success

/-- The customs of a manager. -/
def customs : Customs Watch Errand := ⟨run, ended⟩

end WatchStage

/-- What is asked of a manager. -/
inductive ManagerCall where
  | start
  /-- Refreshes asked for at one time. -/
  | refresh (times : Nat)
  | fire (id : String) (event : Json)
  | request (request : Http.Request)
  | change (path : String) (kind : ChangeKind)
  /-- Some milliseconds go by. -/
  | advance (ms : Nat)
  /-- A refresh with the port changed. -/
  | setPort (port : Nat)
  | shutdown
  deriving Inhabited

/-- What a manager answers. -/
inductive ManagerReply where
  | nothing
  | flag (value : Bool)
  | answer (answer : WebhookAnswer)
  deriving Repr, Inhabited

/-- The stage after a call, and the reply; time does not go by here. -/
def WatchStage.call (s : WatchStage) : ManagerCall → WatchStage × ManagerReply
  | .start => (s.refreshed .start, .nothing)
  | .refresh times =>
    (s.refreshed fun m => (List.range times).foldl (fun m _ => m.requestRefresh) m, .nothing)
  | .fire id event =>
    let (m, firing) := s.world.manager.fire s.now id event
    ((s.manage m).errands (firing.toList.map .begin), .flag firing.isSome)
  | .request r =>
    let (m, answer, firings) := s.world.manager.handle s.now r
    ((s.manage m).errands (firings.map .begin), .answer answer)
  | .change path kind => (s.manage (s.world.manager.change s.now path kind), .nothing)
  | .advance _ => (s, .nothing)
  | .setPort port =>
    let s := s.refreshed fun m => (m.setPort port).requestRefresh
    (s, .flag (s.world.manager.listener == some port))
  | .shutdown => (s.manage s.world.manager.shutdown, .nothing)

/-- A rehearsal of a manager after a call, with all that follows from it done, and the reply. -/
def callManager (p : Play Watch Errand) (c : ManagerCall) : Play Watch Errand × ManagerReply :=
  match c with
  | .advance ms => (p.advanceTo WatchStage.customs (p.memory.now + ms), .nothing)
  | c =>
    let (s, reply) := WatchStage.call p.memory c
    (Play.settled WatchStage.customs { p with memory := s }, reply)

end Workflow.Rehearsal
