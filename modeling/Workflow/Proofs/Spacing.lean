import Workflow.Proofs.Rehearsals
import Workflow.Proofs.Trials

/- The spacing of firings. The trials of a trigger, in the order of time, are a replay of
   its cooldown, and so they are a cooldown apart as far as they are accepted
   (`spaced_firings`). For each trial that is accepted a rehearsal asks for one run
   (`WatchStage.Invokes`). -/
namespace Workflow

/-! ## Runs of firings -/

namespace Rehearsal

/-- The firing that a turn begins a run for. -/
def Turn.firing? : Turn Errand → Option Firing
  | .errand (.begin f) => some f
  | _ => none

namespace WatchStage

/-- What a stage has done with an occurrence: each firing of it has its turn to come, and no run has
been asked for so far. -/
structure Occurred (s : WatchStage) (o : Manager.Occurrence) (s' : WatchStage) : Prop where
  manager : s'.world.manager = (s.world.manager.occur o).1
  requests : s'.world.requests = s.world.requests
  ready : s'.ready.filterMap Turn.firing? =
    s.ready.filterMap Turn.firing? ++ (s.world.manager.occur o).2
  sleeping : s'.sleeping.filterMap (Turn.firing? ·.2) = s.sleeping.filterMap (Turn.firing? ·.2)

theorem errands_nil (s : WatchStage) : s.errands [] = s := by
  simp [errands]

theorem begin_firings (fs : List Firing) :
    ((fs.map Errand.begin).map Turn.errand).filterMap Turn.firing? = fs := by
  rw [List.map_map, List.filterMap_map]
  exact List.filterMap_some

/-- Alarms that are waited for begin no runs. -/
theorem awaits_turns (s : WatchStage) (alarms : List (Alarm AlarmKey AlarmTask)) :
    (alarms.foldl await s).ready.filterMap Turn.firing? = s.ready.filterMap Turn.firing? ∧
      (alarms.foldl await s).sleeping.filterMap (Turn.firing? ·.2) =
        s.sleeping.filterMap (Turn.firing? ·.2) := by
  induction alarms generalizing s with
  | nil => exact ⟨rfl, rfl⟩
  | cons a rest ih =>
    obtain ⟨hready, hsleeping⟩ := ih (s.await a)
    rw [List.foldl_cons, hready, hsleeping]
    unfold await errands
    split <;> simp [Turn.firing?]

/-- An occurrence gives rise to errands, among them its firings. -/
theorem occurred_manage {s : WatchStage} {o : Manager.Occurrence} {m : Manager} {fs : List Firing}
    (h : s.world.manager.occur o = (m, fs)) {es : List Errand}
    (hes : (es.map Turn.errand).filterMap Turn.firing? = fs) :
    Occurred s o ((s.manage m).errands es) := by
  obtain ⟨hready, hsleeping⟩ := awaits_turns
    { s with world := { s.world with manager := m } }
    (m.alarms.live.filter (s.world.manager.alarms.next ≤ ·.number))
  constructor
  case manager => rw [h, errands, manage_world]
  case requests => rw [errands, manage_world]
  case ready =>
    rw [h, errands, List.filterMap_append, hes]
    exact congrArg (· ++ fs) hready
  case sleeping => exact hsleeping

/-- How a stage makes runs of firings. -/
structure Invokes (s : WatchStage) : Prop where
  fire : ∀ id event, Occurred s (.act (.fire s.now id event)) (s.call (.fire id event)).1
  request : ∀ r, Occurred s (.act (.request s.now r)) (s.call (.request r)).1
  ring : ∀ number,
    Occurred s (.act (.ring s.now s.world.timestamp number)) (s.run (.ring number)).1
  /-- One run is asked for in the turn of a firing. -/
  begin : ∀ f, (s.run (.begin f)).1.world.requests =
    (s.now, (Chain.begin f.definition f.event).request) :: s.world.requests

theorem occurred_ring (s : WatchStage) (number : Nat) :
    Occurred s (.act (.ring s.now s.world.timestamp number)) (s.run (.ring number)).1 := by
  have hout : s.world.manager.occur (.act (.ring s.now s.world.timestamp number)) =
    ((s.world.manager.ring s.now s.world.timestamp number).1,
      (s.world.manager.ring s.now s.world.timestamp number).2.firing?.toList) := rfl
  unfold run
  dsimp only
  cases hrung : (s.world.manager.ring s.now s.world.timestamp number).2 with
  | nothing =>
    rw [← (s.manage _).errands_nil]
    exact occurred_manage hout (by rw [hrung]; rfl)
  | firing f => exact occurred_manage hout (by rw [hrung]; rfl)
  | refresh => exact occurred_manage hout (by rw [hrung]; rfl)

theorem invokes (s : WatchStage) : s.Invokes where
  fire _ _ := occurred_manage rfl (begin_firings _)
  request _ := occurred_manage rfl (begin_firings _)
  ring number := occurred_ring s number
  begin f := (ask_spec s (.begin f.definition f.event)).1

end WatchStage

end Rehearsal

namespace Manager

/-- What is true of the trials of a trigger with a definition, and of its firings, over a
history. -/
structure Spaced (m : Manager) (os : List Occurrence) (t : Nat) (d : TriggerDefinition) : Prop where
  /-- Accepted trials are a cooldown apart. -/
  apart : (m.trials t os).Pairwise fun x y =>
    x.accepted = true → y.accepted = true → x.time + d.cooldown ≤ y.time
  /-- A trial is accepted unless the trigger has been disposed of or is cooling down. -/
  accepted_iff : ∀ before x after, m.trials t os = before ++ x :: after →
    (x.accepted = true ↔ x.disposed = false ∧
      ∀ y ∈ before, y.accepted = true → y.time + d.cooldown ≤ x.time)
  /-- When rejected trials are taken away, the others would have come out as they have. -/
  thinned : ∀ kept, Thinned kept (m.trials t os) →
    kept.map (·.accepted) = ({ window := d.cooldown } : Cooldown).decide (kept.map (·.question))
  /-- And so they have in any history that leaves just them to be tried. -/
  likewise : ∀ settings' os' t' live',
    ((new settings').occurAll os').1.triggers[t']? = some live' →
    live'.definition.cooldown = d.cooldown → ∀ kept, Thinned kept (m.trials t os) →
    ((new settings').trials t' os').map (·.question) = kept.map (·.question) →
    ((new settings').trials t' os').map (·.accepted) = kept.map (·.accepted)
  /-- An occurrence makes the trigger fire once if its trial is accepted, and not at all if not. -/
  firings : ∀ before o after, os = before ++ o :: after →
    fired t ((m.occurAll before).1.occur o).2 =
      if ((m.occurAll before).1.trial? t o).any (·.accepted) then [d] else []

/-- **The spacing of firings.** From the registration of a trigger on, whatever tries it, accepted
trials are a cooldown apart, only these make it fire, and the rejected ones leave no trace. -/
theorem spaced_firings (settings : TriggerSettings) (os : List Occurrence)
    (clock : (os.filterMap Occurrence.time?).Pairwise (· ≤ ·)) (t : Nat) (live : LiveTrigger)
    (known : ((new settings).occurAll os).1.triggers[t]? = some live) :
    (new settings).Spaced os t live.definition ∧ ∀ s : Rehearsal.WatchStage, s.Invokes := by
  have hwired := wired_new settings
  have hjudged := judged_newcomer hwired rfl os known
  have htimes : ((new settings).trials t os).Pairwise fun x y => x.time ≤ y.time :=
    List.pairwise_map.mp (clock.sublist (trials_times (new settings) t os))
  have hunused : ∀ y ∈ (new settings).trials t os,
      ({ window := live.definition.cooldown } : Cooldown).Before y.time := by
    intro y _ last hlast
    cases hlast
  refine ⟨?_, Rehearsal.WatchStage.invokes⟩
  constructor
  case apart => exact hjudged.apart hunused htimes
  case accepted_iff =>
    intro before x after htrials
    rw [htrials] at hjudged htimes hunused
    rw [hjudged.accepted_iff hunused htimes]
    simp
  case thinned => exact fun kept hkept => hjudged.thinned hkept
  case likewise =>
    intro settings' os' t' live' known' hcooldown kept hkept hquestions
    have hjudged' := judged_newcomer (wired_new settings') rfl os' known'
    rw [hcooldown] at hjudged'
    calc ((new settings').trials t' os').map (·.accepted)
      _ = ({ window := live.definition.cooldown } : Cooldown).decide
          (((new settings').trials t' os').map (·.question)) := hjudged'
      _ = ({ window := live.definition.cooldown } : Cooldown).decide (kept.map (·.question)) := by
          rw [hquestions]
      _ = kept.map (·.accepted) := (hjudged.thinned hkept).symm
  case firings =>
    rintro before o after rfl
    rw [occurAll_append] at known
    exact fired_occur (hwired.occurAll before) o after known

/-- Settings by which a timer cools down for a minute and a half. -/
def leisurely : TriggerSettings :=
  .ofConfig { triggers := some { defaultCooldown := 90000 } } "/"

/-- A tree with a pipeline that a timer starts each minute. -/
def tidyTree : FileTree :=
  FileTree.empty.plant "/.flowline/tidy.intent.json" (Text.encode
    ("\x7b\"name\":\"tidy\",\"steps\":[\x7b\"intent\":\"system.trigger.cron\"," ++
      "\"payload\":\x7b\"cron\":\"*/1 * * * *\"\x7d\x7d]\x7d"))

/-- The timer ticks twice, and is fired by hand half a minute after that. -/
def twoTicks : List Occurrence :=
  [.act .start, .act (.proceed 0 tidyTree true 0), .act (.ring 60000 "" 0),
    .act (.ring 120000 "" 1), .act (.fire 150000 "tidy.intent.json#0" .null)]

/-- The trigger of the timer in the end. -/
def tidied : LiveTrigger where
  definition :=
    { pipeline := "/.flowline/tidy.intent.json", stepIndex := 0, stepId := none,
      spec := .cron (60 * Schedule.second), cooldown := 90000, onSuccess := none }
  cooldown := { window := 90000, last := some 150000 }

/-- The second tick comes too soon and starts nothing; without it the timer would be fired by hand
just the same. -/
theorem second_tick_too_soon :
    (new leisurely).trials 0 twoTicks =
        [⟨60000, false, true⟩, ⟨120000, false, false⟩, ⟨150000, false, true⟩] ∧
      fired 0 (((new leisurely).occurAll (twoTicks.take 3)).1.occur (.act (.ring 120000 "" 1))).2 =
        [] ∧
      [true, true] = ({ window := 90000 } : Cooldown).decide [(60000, false), (150000, false)] := by
  -- one evaluation, so that the document is read once
  obtain ⟨htrials, hknown, htick⟩ :
      (new leisurely).trials 0 twoTicks =
          [⟨60000, false, true⟩, ⟨120000, false, false⟩, ⟨150000, false, true⟩] ∧
        ((new leisurely).occurAll twoTicks).1.triggers[0]? = some tidied ∧
        (((new leisurely).occurAll (twoTicks.take 3)).1.trial? 0
          (.act (.ring 120000 "" 1))).any (·.accepted) = false := by decide +kernel
  have hspaced := (spaced_firings leisurely twoTicks (by decide) 0 tidied hknown).1
  refine ⟨htrials, ?_, ?_⟩
  · rw [hspaced.firings (twoTicks.take 3) _ (twoTicks.drop 4) rfl, htick]
    rfl
  · refine hspaced.thinned [⟨60000, false, true⟩, ⟨150000, false, true⟩] ?_
    rw [htrials]
    exact .keep _ (.drop rfl (.keep _ .nil))

end Manager

end Workflow
