import Workflow.Proofs.RestingChanges
import Workflow.Proofs.Spacing
import Workflow.Proofs.WatchAlarms

/- The firings of a watch. As long as the alarms of its trigger ring on time (`Punctual`), the
   alarms that are set are those of the reports that wait to come to rest (`Resting`), and
   so the trigger is tried by the reports that have come to rest and by nothing else; its
   cooldown says which of these trials make it fire (`resting_course`). -/
namespace Workflow

/-- The report that an act makes. -/
def Manager.Act.report? : Manager.Act → Option Report
  | .change now path kind => some ⟨now, path, kind⟩
  | _ => none

namespace WatchSpec

/-- The reports among acts that a watch covers. -/
def reports (w : WatchSpec) (root : String) (acts : List Manager.Act) : List Report :=
  (acts.filterMap Manager.Act.report?).filter fun r => w.covers root r.path r.kind

/-- The alarm of a report that waits to come to rest. -/
def alarmFor (w : WatchSpec) (t : Nat) (r : Report) : AlarmKey × Nat × AlarmTask :=
  (.change t (Path.parts r.path) r.kind, r.time + w.debounce,
    .change t (changeEvent r.path r.kind w))

/-- The reports that wait when one more has been made: if it is covered, it takes the place of the
one with its key. -/
def waitingAfter (w : WatchSpec) (root : String) (waiting : List Report) (r : Report) :
    List Report :=
  if w.covers root r.path r.kind then waiting.filter (·.key != r.key) ++ [r] else waiting

/-- Among the alarms of reports those with a key are told by their own. -/
theorem alarmFor_filter (w : WatchSpec) (t : Nat) (waiting : List Report) (r : Report) :
    (waiting.map (w.alarmFor t)).filter (·.1 != .change t (Path.parts r.path) r.kind) =
      (waiting.filter (·.key != r.key)).map (w.alarmFor t) := by
  rw [List.filter_map]
  refine congrArg (List.map _) (List.filter_congr fun s _ => ?_)
  simp [alarmFor, Report.key, bne]

/-- The firing that comes of an attempt that is accepted, with its time. -/
def firingOf (w : WatchSpec) (t : Nat) (d : TriggerDefinition) (a : Nat × Report) :
    Option Nat × Firing :=
  (some a.1, ⟨t, d, changeEvent a.2.path a.2.kind w⟩)

end WatchSpec

namespace Manager

/-- The firings of a trigger over a course, each with the time of its act. -/
def firingsOf (t : Nat) (m : Manager) : List Act → List (Option Nat × Firing)
  | [] => []
  | a :: rest =>
    ((m.perform a).2.filter (·.trigger == t)).map (fun f => ((Occurrence.act a).time?, f)) ++
      firingsOf t (m.perform a).1 rest

/-- The time of an act when it is that late. What takes no notice of the clock is done at once. -/
def Act.timeFrom (now : Nat) (a : Act) : Nat := (Occurrence.act a).time?.getD now

/-- A course from a time on in which the alarms of a trigger ring when they are due, the first of
them first, until a limit. Anything may be done in between that does not try the trigger. -/
inductive Punctual (t limit : Nat) : Manager → Nat → List Act → Prop where
  | done {m : Manager} {now : Nat} (time : now ≤ limit)
      (none_due : (m.alarmsOf t).first? limit = none) : Punctual t limit m now []
  | ring {m : Manager} {now : Nat} {a : Alarm AlarmKey AlarmTask} {rest : List Act}
      (timestamp : String) (time : now ≤ a.due) (first : (m.alarmsOf t).first? a.due = some a)
      (after : Punctual t limit (m.perform (.ring a.due timestamp a.number)).1 a.due rest) :
      Punctual t limit m now (.ring a.due timestamp a.number :: rest)
  | act {m : Manager} {now : Nat} {a : Act} {rest : List Act} (time : now ≤ a.timeFrom now)
      (none_due : (m.alarmsOf t).first? (a.timeFrom now) = none) (untried : t ∉ m.tries (.act a))
      (after : Punctual t limit (m.perform a).1 (a.timeFrom now) rest) :
      Punctual t limit m now (a :: rest)

/-- Whether a course is found to be one of these. -/
def keepsTime (t limit : Nat) (m : Manager) (now : Nat) : List Act → Bool
  | [] => now ≤ limit && ((m.alarmsOf t).first? limit).isNone
  | a :: rest =>
    let time := a.timeFrom now
    let due := match (m.alarmsOf t).first? time, a with
      | some next, .ring τ _ number => next.due == τ && next.number == number
      | some _, _ => false
      | none, a => !(m.tries (.act a)).contains t
    now ≤ time && due && keepsTime t limit (m.perform a).1 time rest

theorem punctual_of_keepsTime {t limit now : Nat} {m : Manager} {acts : List Act}
    (h : m.keepsTime t limit now acts = true) : Punctual t limit m now acts := by
  induction acts generalizing m now with
  | nil =>
    simp only [keepsTime, Bool.and_eq_true, decide_eq_true_eq, Option.isNone_iff_eq_none] at h
    exact .done h.1 h.2
  | cons a rest ih =>
    simp only [keepsTime, Bool.and_eq_true, decide_eq_true_eq] at h
    obtain ⟨⟨htime, hdue⟩, hrest⟩ := h
    cases hfirst : (m.alarmsOf t).first? (a.timeFrom now) with
    | none =>
      rw [hfirst] at hdue
      have huntried : t ∉ m.tries (.act a) := by simpa using hdue
      exact .act htime hfirst huntried (ih hrest)
    | some next =>
      rw [hfirst] at hdue
      cases a with
      | ring τ timestamp number =>
        simp only [Bool.and_eq_true, beq_iff_eq] at hdue
        obtain ⟨rfl, rfl⟩ := hdue
        exact .ring timestamp htime hfirst (ih hrest)
      | _ => cases hdue

theorem Punctual.le_limit {t limit now : Nat} {m : Manager} {acts : List Act}
    (h : Punctual t limit m now acts) : now ≤ limit := by
  induction h with
  | done time => exact time
  | ring timestamp time first after ih => exact Nat.le_trans time ih
  | act time none_due untried after ih => exact Nat.le_trans time ih

/-- A trigger that is alive and registered, and whose alarms are those of the reports that wait. -/
structure Resting (m : Manager) (t : Nat) (live : LiveTrigger) (w : WatchSpec)
    (waiting : List Report) (now : Nat) : Prop where
  wired : m.Wired
  known : m.triggers[t]? = some live
  registered : t ∈ m.table
  watch : live.definition.spec = .watch w
  alarms : (m.alarmsOf t).settings = waiting.map (w.alarmFor t)
  ordered : waiting.Pairwise fun r s => r.time ≤ s.time
  reported : ∀ r ∈ waiting, r.time ≤ now
  coming : ∀ r ∈ waiting, now ≤ r.time + w.debounce

section Resting

variable {m : Manager} {t now : Nat} {live : LiveTrigger} {w : WatchSpec} {waiting : List Report}

theorem Resting.alive (h : Resting m t live w waiting now) : live.disposed = false :=
  h.wired.undisposed h.known h.registered

theorem Resting.sorted (h : Resting m t live w waiting now) :
    (m.alarmsOf t).live.Pairwise fun a b => a.due ≤ b.due := by
  have hsettings : (m.alarmsOf t).settings.Pairwise fun a b => a.2.1 ≤ b.2.1 := by
    rw [h.alarms, List.pairwise_map]
    exact h.ordered.imp fun hle => Nat.add_le_add_right hle w.debounce
  rw [Alarms.settings, List.pairwise_map] at hsettings
  exact hsettings

theorem Resting.distinct (h : Resting m t live w waiting now) :
    waiting.Pairwise fun r s => r.key ≠ s.key := by
  have hkeys : ((m.alarmsOf t).settings.map (·.1)).Nodup := by
    unfold Alarms.settings
    rw [List.map_map]
    exact (h.wired.sound.cancel (AlarmKey.foreignTo t)).keys
  rw [h.alarms, List.map_map, List.Nodup, List.pairwise_map] at hkeys
  refine hkeys.imp fun hne heq => hne ?_
  obtain ⟨hpath, hkind⟩ := Prod.mk.inj heq
  show AlarmKey.change t _ _ = AlarmKey.change t _ _
  rw [hpath, hkind]

/-- When no alarm is due, no report that waits has come to rest. -/
theorem Resting.none_due (h : Resting m t live w waiting now) {time : Nat}
    (hnone : (m.alarmsOf t).first? time = none) : ∀ r ∈ waiting, time < r.time + w.debounce := by
  have halarms := h.alarms
  rw [Alarms.first?_eq_of_sorted h.sorted] at hnone
  unfold Alarms.settings at halarms
  cases waiting with
  | nil => exact fun r hr => absurd hr List.not_mem_nil
  | cons first rest =>
    obtain ⟨a, others, hlive, hfirst, -⟩ := List.map_eq_cons_iff.mp halarms
    have hdue : a.due = first.time + w.debounce := congrArg (·.2.1) hfirst
    rw [hlive, List.head?_cons, Option.filter_eq_none_iff] at hnone
    have hlate := hnone a rfl
    simp only [decide_eq_true_eq, Nat.not_le] at hlate
    intro r hr
    rcases List.mem_cons.mp hr with rfl | hr
    · omega
    · have := (List.pairwise_cons.mp h.ordered).1 r hr
      omega

theorem Resting.later (h : Resting m t live w waiting now) {time : Nat} (hle : now ≤ time)
    (hnone : (m.alarmsOf t).first? time = none) : Resting m t live w waiting time :=
  { h with
    reported := fun r hr => Nat.le_trans (h.reported r hr) hle
    coming := fun r hr => Nat.le_of_lt (h.none_due hnone r hr) }

/-- The alarm that rings first is that of the report that has waited longest. -/
theorem Resting.first (h : Resting m t live w waiting now) {time : Nat}
    {a : Alarm AlarmKey AlarmTask} (hfirst : (m.alarmsOf t).first? time = some a) :
    ∃ r rest others, waiting = r :: rest ∧ (m.alarmsOf t).live = a :: others ∧
      (a.key, a.due, a.item) = w.alarmFor t r ∧ a.due ≤ time := by
  have halarms := h.alarms
  rw [Alarms.first?_eq_of_sorted h.sorted, Option.filter_eq_some_iff] at hfirst
  obtain ⟨hhead, hdue⟩ := hfirst
  obtain ⟨others, hlive⟩ := List.head?_eq_some_iff.mp hhead
  unfold Alarms.settings at halarms
  rw [hlive, List.map_cons] at halarms
  obtain ⟨r, rest, hwaiting, hr, -⟩ := List.map_eq_cons_iff.mp halarms.symm
  exact ⟨r, rest, others, hwaiting, hlive, hr.symm, by simpa using hdue⟩

theorem Resting.watchOf? (h : Resting m t live w waiting now) (path : String) (kind : ChangeKind) :
    m.watchOf? path kind t =
      if w.covers m.settings.workspaceRoot path kind then some w else none := by
  have hdefinition : m.definition? t = some live.definition := by
    rw [definition?_eq_some_iff]
    exact ⟨h.registered, live.disposed, by rw [standing?, h.known]; rfl⟩
  unfold Manager.watchOf?
  rw [hdefinition, Option.map_some, h.watch]

/-- A report that is covered takes the place of the one with its key among those that wait. -/
theorem Resting.change (h : Resting m t live w waiting now) (path : String) (kind : ChangeKind) :
    Resting (m.perform (.change now path kind)).1 t live w
      (w.waitingAfter m.settings.workspaceRoot waiting ⟨now, path, kind⟩) now := by
  have hframe : (m.perform (.change now path kind)).1 =
      { m with alarms := (m.change now path kind).alarms } := m.change_frame now path kind
  have halarms := alarmsOf_change h.wired h.registered now path kind
  rw [h.watchOf?, h.alarms] at halarms
  have hmem : ∀ r ∈ w.waitingAfter m.settings.workspaceRoot waiting ⟨now, path, kind⟩,
      r ∈ waiting ∨ r = ⟨now, path, kind⟩ := by
    intro r hr
    unfold WatchSpec.waitingAfter at hr
    split at hr
    · exact (List.mem_append.mp hr).imp List.mem_of_mem_filter List.mem_singleton.mp
    · exact .inl hr
  constructor
  case wired => exact h.wired.perform _
  case known =>
    rw [hframe]
    exact h.known
  case registered =>
    rw [hframe]
    exact h.registered
  case watch => exact h.watch
  case alarms =>
    show ((m.change now path kind).alarmsOf t).settings = _
    rw [halarms]
    unfold WatchSpec.waitingAfter
    dsimp only
    split
    · rw [List.map_append, ← w.alarmFor_filter]
      rfl
    · rfl
  case ordered =>
    unfold WatchSpec.waitingAfter
    split
    · refine List.pairwise_append.mpr ⟨h.ordered.filter _, List.pairwise_singleton _ _, ?_⟩
      intro r hr s hs
      rw [List.mem_singleton.mp hs]
      exact h.reported r (List.mem_of_mem_filter hr)
    · exact h.ordered
  case reported =>
    intro r hr
    rcases hmem r hr with hr | rfl
    · exact h.reported r hr
    · exact Nat.le_refl now
  case coming =>
    intro r hr
    rcases hmem r hr with hr | rfl
    · exact h.coming r hr
    · exact Nat.le_add_right now w.debounce

theorem attempt_of_alive (hl : m.triggers[t]? = some live) (alive : live.disposed = false)
    (time : Nat) (event : Json) :
    (m.attempt time t event).1.triggers[t]? =
        some { live with cooldown := (live.cooldown.acquire time).1 } ∧
      (m.attempt time t event).2 =
        if (live.cooldown.acquire time).2 then some ⟨t, live.definition, event⟩ else none := by
  have hlt := (List.getElem?_eq_some_iff.mp hl).1
  unfold attempt
  rw [hl]
  dsimp only
  rw [if_neg (by simp [alive])]
  cases haccepted : (live.cooldown.acquire time).2 with
  | true => simp [hlt]
  | false => simp [hl, Cooldown.acquire_refused haccepted]

/-- An alarm of the trigger that rings tries it, and then the report in front has waited. -/
theorem Resting.ring {r : Report} {rest : List Report} (h : Resting m t live w (r :: rest) now)
    {a : Alarm AlarmKey AlarmTask} {others : List (Alarm AlarmKey AlarmTask)}
    (hlive : (m.alarmsOf t).live = a :: others)
    (ha : (a.key, a.due, a.item) = w.alarmFor t r) (timestamp : String) :
    m.tries (.act (.ring a.due timestamp a.number)) = [t] ∧
      (m.perform (.ring a.due timestamp a.number)).2 =
        (if (live.cooldown.acquire a.due).2 then
          [⟨t, live.definition, changeEvent r.path r.kind w⟩] else []) ∧
      Resting (m.perform (.ring a.due timestamp a.number)).1 t
        { live with cooldown := (live.cooldown.acquire a.due).1 } w rest a.due := by
  have hmem : a ∈ m.alarms.live := (mem_alarmsOf.mp (hlive ▸ List.mem_cons_self)).1
  have hfound := h.wired.sound.find?_of_mem hmem
  obtain ⟨-, hdue, hitem⟩ : a.key = _ ∧ a.due = r.time + w.debounce ∧
      a.item = .change t (changeEvent r.path r.kind w) := by
    simpa [WatchSpec.alarmFor] using ha
  have hring : m.ring a.due timestamp a.number =
      ({ (m.attempt a.due t (changeEvent r.path r.kind w)).1 with
          alarms := m.alarms.drop a.number },
        .ofFiring? (m.attempt a.due t (changeEvent r.path r.kind w)).2) := by
    simp only [Manager.ring, hfound, hitem, attempt_with_alarms]
  obtain ⟨hknown, hfiring⟩ :=
    attempt_of_alive h.known h.alive a.due (changeEvent r.path r.kind w)
  refine ⟨by simp [tries, hfound, hitem, AlarmTask.trigger?], ?_, ?_⟩
  · show (m.ring a.due timestamp a.number).2.firing?.toList = _
    rw [hring, Ring.firing?_ofFiring?, hfiring]
    split <;> rfl
  · constructor
    case wired => exact h.wired.perform _
    case known =>
      show (m.ring a.due timestamp a.number).1.triggers[t]? = _
      rw [hring]
      exact hknown
    case registered =>
      show t ∈ (m.ring a.due timestamp a.number).1.table
      rw [ring_frame]
      exact h.registered
    case watch => exact h.watch
    case alarms =>
      show ((m.ring a.due timestamp a.number).1.alarmsOf t).settings = _
      rw [hring]
      show List.map _ ((m.alarms.drop a.number).cancel (AlarmKey.foreignTo t)).live = _
      rw [h.wired.sound.cancel_drop_first hlive]
      have halarms := h.alarms
      rw [Alarms.settings, hlive] at halarms
      exact (List.cons.inj halarms).2
    case ordered => exact (List.pairwise_cons.mp h.ordered).2
    case reported =>
      intro s hs
      have := h.reported s (List.mem_cons_of_mem r hs)
      have := h.coming r List.mem_cons_self
      omega
    case coming =>
      intro s hs
      have := (List.pairwise_cons.mp h.ordered).1 s hs
      omega

/-- What does not try the trigger and leaves it registered, if it is no change, leaves all as it
is. -/
theorem Resting.other (h : Resting m t live w waiting now) {a : Act}
    (other : ∀ now path kind, a ≠ .change now path kind) (untried : t ∉ m.tries (.act a))
    (ht : t ∈ (m.perform a).1.table) : Resting (m.perform a).1 t live w waiting now := by
  have hwired := h.wired.perform a
  constructor
  case wired => exact hwired
  case known =>
    have htried : m.triedAt? t (.act a) = none := if_neg untried
    obtain ⟨live', hl', hdefinition, hcooldown⟩ := (fares_occur h.wired h.known (.act a)).kept
    rw [htried] at hcooldown
    have hcooldown : live'.cooldown = live.cooldown := hcooldown
    have hl' : (m.perform a).1.triggers[t]? = some live' := hl'
    -- it is in the table, so it has not been disposed of
    have hdisposed : live'.disposed = live.disposed :=
      (hwired.undisposed hl' ht).trans h.alive.symm
    have hsame : live' = live := by
      cases live
      cases live'
      rw [LiveTrigger.mk.injEq]
      exact ⟨hdefinition, hcooldown, hdisposed⟩
    rw [hl', hsame]
  case registered => exact ht
  case watch => exact h.watch
  case alarms =>
    have hlive := alarmsOf_perform h.wired h.known other (fun _ _ _ _ => untried) ht
    rw [← h.alarms]
    exact congrArg (List.map _) hlive
  case ordered => exact h.ordered
  case reported => exact h.reported
  case coming => exact h.coming

theorem silent_of_untried (h : m.Wired) (hl : m.triggers[t]? = some live) {a : Act}
    (untried : t ∉ m.tries (.act a)) : (m.perform a).2.filter (·.trigger == t) = [] := by
  have htried : m.triedAt? t (.act a) = none := if_neg untried
  have hfired := (fares_occur h hl (.act a)).fired
  rw [htried] at hfired
  exact List.map_eq_nil_iff.mp hfired

/-! ## Courses -/

theorem Punctual.le_reported {limit : Nat} {acts : List Act} (h : Punctual t limit m now acts) :
    ∀ r ∈ acts.filterMap Act.report?, now ≤ r.time := by
  induction h with
  | done => exact fun r hr => absurd hr List.not_mem_nil
  | ring timestamp time first after ih =>
    exact fun r hr => Nat.le_trans time (ih r hr)
  | @act m now a rest time none_due untried after ih =>
    intro r hr
    rw [List.filterMap_cons] at hr
    cases a with
    | change τ path kind =>
      rcases List.mem_cons.mp hr with rfl | hr
      · exact time
      · exact Nat.le_trans time (ih r hr)
    | _ => exact Nat.le_trans time (ih r hr)

theorem Punctual.ordered {limit : Nat} {acts : List Act} (h : Punctual t limit m now acts) :
    (acts.filterMap Act.report?).Pairwise fun r s => r.time ≤ s.time := by
  induction h with
  | done => exact List.Pairwise.nil
  | ring timestamp time first after ih => exact ih
  | @act m now a rest time none_due untried after ih =>
    rw [List.filterMap_cons]
    cases a with
    | change τ path kind =>
      refine List.pairwise_cons.mpr ⟨fun s hs => ?_, ih⟩
      exact after.le_reported s hs
    | _ => exact ih

theorem reports_cons (w : WatchSpec) (root : String) (a : Act) (rest : List Act) :
    w.reports root (a :: rest) =
      a.report?.toList.filter (fun r => w.covers root r.path r.kind) ++ w.reports root rest := by
  unfold WatchSpec.reports
  rw [List.filterMap_cons]
  cases a.report? with
  | none => rfl
  | some r => exact List.filter_append [r] _

/-- An act that does not try the trigger: the reports that wait afterwards come to the same
attempts. -/
theorem Resting.step (h : Resting m t live w waiting now) {a : Act}
    (time : now ≤ a.timeFrom now) (none_due : (m.alarmsOf t).first? (a.timeFrom now) = none)
    (untried : t ∉ m.tries (.act a)) (stays : t ∈ (m.perform a).1.table) (limit : Nat)
    (rest : List Act) :
    ∃ waiting', Resting (m.perform a).1 t live w waiting' (a.timeFrom now) ∧
      attemptsFor w.debounce limit
          (waiting ++ w.reports m.settings.workspaceRoot (a :: rest)) =
        attemptsFor w.debounce limit
          (waiting' ++ w.reports m.settings.workspaceRoot rest) := by
  have hlater := h.later time none_due
  rw [reports_cons]
  by_cases hchange : ∃ τ path kind, a = .change τ path kind
  · obtain ⟨τ, path, kind, rfl⟩ := hchange
    have hchanged : Resting (m.perform (.change τ path kind)).1 t live w
        (w.waitingAfter m.settings.workspaceRoot waiting ⟨τ, path, kind⟩) τ :=
      hlater.change path kind
    refine ⟨_, hchanged, ?_⟩
    by_cases hcovers : w.covers m.settings.workspaceRoot path kind = true
    · have hreplace : atRest w.debounce
            (waiting ++ ⟨τ, path, kind⟩ :: w.reports m.settings.workspaceRoot rest) = _ :=
        atRest_replace fun x hx _ => h.none_due none_due x hx
      simp [Act.report?, WatchSpec.waitingAfter, hcovers, attemptsFor, hreplace]
    · simp [Act.report?, WatchSpec.waitingAfter, hcovers]
  · have hother : ∀ τ path kind, a ≠ .change τ path kind := fun τ path kind heq =>
      hchange ⟨τ, path, kind, heq⟩
    refine ⟨waiting, hlater.other hother untried stays, ?_⟩
    cases a with
    | change τ path kind => exact absurd rfl (hother τ path kind)
    | _ => rfl

/-- What comes of a course when reports wait: the firings, and what the trials are before anything
is said about them. -/
theorem resting_course {limit : Nat} {acts : List Act} (h : Resting m t live w waiting now)
    (hp : Punctual t limit m now acts) (ht : t ∈ (m.course acts).1.table) :
    m.firingsOf t acts =
        (live.cooldown.admitted (attemptsFor w.debounce limit
          (waiting ++ w.reports m.settings.workspaceRoot acts))).map
            (w.firingOf t live.definition) ∧
      (m.trials t (acts.map .act)).map (·.question) =
        (attemptsFor w.debounce limit (waiting ++ w.reports m.settings.workspaceRoot acts)).map
          fun a => (a.1, false) := by
  -- by induction on the course; what is carried along is that the alarms are those of the
  -- reports that wait, and the cooldown moves on with each trial
  induction hp generalizing live waiting with
  | done time none_due =>
    -- what still waits is due behind the limit
    have hnone : ∀ r ∈ waiting ++ [], limit < r.time + w.debounce := by
      simpa using h.none_due none_due
    rw [show w.reports _ [] = [] from rfl, attemptsFor_eq_nil hnone]
    exact ⟨rfl, rfl⟩
  | @ring m now a rest timestamp time first after ih =>
    obtain ⟨r, left, others, rfl, hlive, ha, -⟩ := h.first first
    obtain ⟨htries, hfirings, hnext⟩ := h.ring hlive ha timestamp
    obtain ⟨ihfirings, ihtrials⟩ := ih hnext ht
    have hdue : a.due = r.time + w.debounce := congrArg (·.2.1) ha
    have hreports : w.reports m.settings.workspaceRoot (.ring a.due timestamp a.number :: rest) =
        w.reports m.settings.workspaceRoot rest := rfl
    -- those that wait have other keys, and those that are still to be made come too late
    have hlast : ¬ r.Overtaken w.debounce (left ++ w.reports m.settings.workspaceRoot rest) := by
      intro ⟨s, hs, hkey, hsoon⟩
      rcases List.mem_append.mp hs with hs | hs
      · exact (List.pairwise_cons.mp h.distinct).1 s hs hkey.symm
      · have := after.le_reported s (List.mem_of_mem_filter hs)
        omega
    have hin : r.time + w.debounce ≤ limit := hdue ▸ after.le_limit
    rw [settings_perform] at ihfirings ihtrials
    rw [hreports, List.cons_append, attemptsFor_cons hlast hin, ← hdue]
    constructor
    · rw [firingsOf, hfirings, ihfirings, Cooldown.admitted]
      cases (live.cooldown.acquire a.due).2 with
      | true => simp [WatchSpec.firingOf, Occurrence.time?]
      | false => simp
    · have htrial : m.trial? t (.act (.ring a.due timestamp a.number)) =
          some ⟨a.due, false, live.admits a.due⟩ := by
        simp [trial?_of_known h.known, triedAt?, htries, Occurrence.time?, h.alive]
      rw [List.map_cons, trials, htrial, List.map_append]
      exact congrArg ((a.due, false) :: ·) ihtrials
  | @act m now a rest time none_due untried after ih =>
    have hstays : t ∈ (m.perform a).1.table := by
      obtain ⟨live', hl', -⟩ := noted_occur h.wired h.known (.act a)
      exact mem_table_of_course (h.wired.perform a) hl' ht
    have hsilent := silent_of_untried h.wired h.known untried
    have htrial : m.trial? t (.act a) = none := by
      rw [trial?_of_known h.known, triedAt?, if_neg untried]
      rfl
    obtain ⟨waiting', hnext, hsame⟩ := h.step time none_due untried hstays limit rest
    obtain ⟨ihfirings, ihtrials⟩ := ih hnext ht
    -- the act itself neither tries the trigger nor makes it fire
    rw [settings_perform] at ihfirings ihtrials
    rw [hsame]
    constructor
    · rw [firingsOf, hsilent, ihfirings]
      rfl
    · rw [List.map_cons, trials, htrial]
      exact ihtrials

/-! ## Every sequence of reports -/

/-- Whether there is a course that makes just these reports and leaves the trigger registered. -/
def Heard (t limit : Nat) (m : Manager) (now : Nat) (reports : List Report) : Prop :=
  ∃ acts, Punctual t limit m now acts ∧ acts.filterMap Act.report? = reports ∧
    t ∈ (m.course acts).1.table

/-- Before anything is done at a time, the alarms that are due by then ring. -/
theorem Resting.wait {limit time : Nat} {reports : List Report}
    (h : Resting m t live w waiting now) (hle : now ≤ time)
    (goal : ∀ {m : Manager} {live : LiveTrigger} {waiting : List Report} {now : Nat},
      Resting m t live w waiting now → now ≤ time → (m.alarmsOf t).first? time = none →
      Heard t limit m now reports) : Heard t limit m now reports := by
  -- each alarm that rings leaves one report less to wait
  induction waiting generalizing m live now with
  | nil =>
    refine goal h hle ?_
    have hlive : (m.alarmsOf t).live = [] := List.map_eq_nil_iff.mp h.alarms
    rw [Alarms.first?_eq_of_sorted h.sorted, hlive]
    rfl
  | cons r rest ih =>
    cases hfirst : (m.alarmsOf t).first? time with
    | none => exact goal h hle hfirst
    | some a =>
      obtain ⟨r', rest', others, heq, hlive, ha, hdue⟩ := h.first hfirst
      cases heq
      have hring := (h.ring hlive ha "").2.2
      obtain ⟨acts, hp, hreports, ht⟩ := ih hring hdue
      have hnow : now ≤ a.due := by
        have : a.due = r.time + w.debounce := congrArg (·.2.1) ha
        have := h.coming r List.mem_cons_self
        omega
      have hnext : (m.alarmsOf t).first? a.due = some a := by
        rw [Alarms.first?_eq_of_sorted h.sorted, hlive]
        simp
      exact ⟨_, .ring "" hnow hnext hp, hreports, ht⟩

/-- Any reports in the order of time are made by a course. -/
theorem Resting.heard {limit : Nat} {reports : List Report} (h : Resting m t live w waiting now)
    (hlimit : now ≤ limit) (ordered : reports.Pairwise fun r s => r.time ≤ s.time)
    (between : ∀ r ∈ reports, now ≤ r.time ∧ r.time ≤ limit) : Heard t limit m now reports := by
  induction reports generalizing m live waiting now with
  | nil => exact h.wait hlimit fun h hle hnone => ⟨[], .done hle hnone, rfl, h.registered⟩
  | cons r later ih =>
    obtain ⟨hfirst, hlater⟩ := List.pairwise_cons.mp ordered
    obtain ⟨hnow, hin⟩ := between r List.mem_cons_self
    refine h.wait hnow fun h hle hnone => ?_
    have hnext := (h.later hle hnone).change r.path r.kind
    obtain ⟨acts, hp, hreports, ht⟩ := ih hnext hin hlater fun s hs =>
      ⟨hfirst s hs, (between s (List.mem_cons_of_mem r hs)).2⟩
    refine ⟨.change r.time r.path r.kind :: acts, .act hle hnone List.not_mem_nil hp, ?_, ht⟩
    rw [List.filterMap_cons, hreports]
    rfl

/-! ## Firings -/

/-- The cooldown of a trigger is as long as its definition says. -/
theorem window_occurAll (h : m.Wired)
    (windows : ∀ live, m.triggers[t]? = some live →
      live.cooldown.window = live.definition.cooldown) (os : List Occurrence) :
    ∀ live, (m.occurAll os).1.triggers[t]? = some live →
      live.cooldown.window = live.definition.cooldown := by
  induction os generalizing m with
  | nil => exact windows
  | cons o rest ih =>
    refine ih (h.occur o) fun live hl => ?_
    cases hfirst : m.triggers[t]? with
    | none =>
      rw [(newcomer_occur h hfirst o).fresh live hl]
      rfl
    | some first =>
      obtain ⟨live', hl', hdefinition, hcooldown⟩ := noted_occur h hfirst o
      obtain rfl := Option.some.inj (hl.symm.trans hl')
      rw [hdefinition, hcooldown, ← windows first hfirst]
      cases m.trial? t o with
      | none => rfl
      | some x => exact Cooldown.noted_window first.cooldown x

end Resting

/-- What is true of the trials and the firings of a trigger with a watch over a course that is over
at a limit, when these reports are covered. -/
structure Debounced (m : Manager) (t : Nat) (live : LiveTrigger) (w : WatchSpec) (limit : Nat)
    (acts : List Act) (reports : List Report) : Prop where
  /-- The cooldown is that of the definition. -/
  window : live.cooldown.window = live.definition.cooldown
  /-- Each report that is not overtaken is one trial, when the delay is over. -/
  trials : (m.trials t (acts.map .act)).map (·.question) =
    (attemptsFor w.debounce limit reports).map fun a => (a.1, false)
  /-- These are in the order of time, those of one time in the order of the reports. -/
  ordered : (attemptsFor w.debounce limit reports).Pairwise fun a b => a.1 ≤ b.1
  /-- Those that the cooldown accepts fire, each with its own path and kind, and nothing else. -/
  firings : m.firingsOf t acts =
    (live.cooldown.admitted (attemptsFor w.debounce limit reports)).map
      (w.firingOf t live.definition)
  /-- Reports of one key are overtaken as if there were no others. -/
  apart : ∀ key, (atRest w.debounce reports).filter (·.key == key) =
    atRest w.debounce (reports.filter (·.key == key))
  /-- The last report of a burst is not overtaken, and the others of the burst are. -/
  burst : ∀ before burst last after,
    reports.filter (·.key == last.key) = before ++ (burst ++ last :: after) →
    (burst ++ [last]).IsChain (fun r s => s.time < r.time + w.debounce) →
    ¬ last.Overtaken w.debounce after →
    ∃ kept, kept.Sublist before ∧ (atRest w.debounce reports).filter (·.key == last.key) =
      kept ++ last :: atRest w.debounce after

/-- **Debounced firings.** From a time on at which no change is waited for, and as long as the
trigger of a watch stays registered, the changes that the watch covers and that have come to rest
are tried, and those that the cooldown accepts fire. Any sequence of changes can be reported. -/
theorem firings_of_reports (settings : TriggerSettings) (earlier : List Occurrence)
    {m : Manager} (reached : ((new settings).occurAll earlier).1 = m) (t now limit : Nat)
    (live : LiveTrigger) (w : WatchSpec) (acts : List Act)
    (known : m.triggers[t]? = some live) (watch : live.definition.spec = .watch w)
    (idle : (m.alarmsOf t).live = []) (punctual : Punctual t limit m now acts)
    (registered : t ∈ (m.course acts).1.table) :
    m.Debounced t live w limit acts (w.reports m.settings.workspaceRoot acts) ∧
      (∀ (later : Nat) (reports : List Report), now ≤ later →
        reports.Pairwise (fun r s => r.time ≤ s.time) →
        (∀ r ∈ reports, now ≤ r.time ∧ r.time ≤ later) → m.Heard t later now reports) ∧
      ∀ s : Rehearsal.WatchStage, s.Invokes := by
  have hwired : m.Wired := reached ▸ (wired_new settings).occurAll earlier
  have hresting : Resting m t live w [] now := by
    constructor
    case wired => exact hwired
    case known => exact known
    case registered => exact mem_table_of_course hwired known registered
    case watch => exact watch
    case alarms => exact congrArg (List.map _) idle
    case ordered => exact List.Pairwise.nil
    case reported => exact fun r hr => absurd hr List.not_mem_nil
    case coming => exact fun r hr => absurd hr List.not_mem_nil
  obtain ⟨hfirings, htrials⟩ := resting_course hresting punctual registered
  have hordered : (w.reports m.settings.workspaceRoot acts).Pairwise fun r s => r.time ≤ s.time :=
    punctual.ordered.filter _
  refine ⟨?_, fun _ _ hlimit => hresting.heard hlimit, Rehearsal.WatchStage.invokes⟩
  constructor
  case window =>
    have hunknown : ∀ live, (new settings).triggers[t]? = some live →
        live.cooldown.window = live.definition.cooldown := fun live hl => by cases hl
    exact window_occurAll (wired_new settings) hunknown earlier live (reached ▸ known)
  case trials => exact htrials
  case ordered => exact attemptsFor_ordered hordered
  case firings => exact hfirings
  case apart => exact atRest_filter_key w.debounce _
  case burst =>
    intro before burst last after hreports chain quiet
    obtain ⟨kept, hkept, hsplit⟩ := atRest_append w.debounce before (burst ++ last :: after)
    have hone : ∀ s ∈ burst, s.key = last.key := by
      intro s hs
      have hmem : s ∈ before ++ (burst ++ last :: after) := by simp [hs]
      rw [← hreports] at hmem
      simpa using (List.mem_filter.mp hmem).2
    refine ⟨kept, hkept, ?_⟩
    rw [atRest_filter_key, hreports, hsplit, atRest_burst hone chain quiet]

/-- A tree with a pipeline that changes below a directory start. -/
def savedTree : FileTree :=
  FileTree.empty.plant "/.flowline/save.intent.json" (Text.encode
    ("\x7b\"name\":\"save\",\"steps\":[\x7b\"intent\":\"system.trigger.watch\"," ++
      "\"payload\":\x7b\"glob\":\"src/**\",\"events\":[\"change\"]," ++
      "\"debounceMs\":100\x7d\x7d]\x7d"))

/-- The watch of that pipeline. -/
def savedWatch : WatchSpec where
  pattern :=
    { text := "src/**", tokens := [.char 's', .char 'r', .char 'c', .char '/', .parts] }
  changes := [.change]
  debounce := 100

/-- The trigger of the watch. -/
def saved : LiveTrigger where
  definition :=
    { pipeline := "/.flowline/save.intent.json", stepIndex := 0, stepId := none,
      spec := .watch savedWatch, cooldown := 90000, onSuccess := none }
  cooldown := { window := 90000 }

/-- The documents are read, and the watch is registered. -/
def readSaved : List Occurrence := [.act .start, .act (.proceed 0 savedTree true 0)]

/-- Two changes of one file, the second soon after the first, and one of another file; each file
comes to rest. -/
def savedTwice : List Act :=
  [.change 1000 "/src/a" .change, .change 1060 "/src/a" .change, .change 1100 "/src/b" .change,
    .ring 1160 "" 1, .ring 1200 "" 2]

/-- Of the two changes of the first file the second fires, and the change of the other file comes
to rest too soon after that. -/
theorem saved_fires_once :
    ((new leisurely).occurAll readSaved).1.firingsOf 0 savedTwice =
      [(some 1160, ⟨0, saved.definition, changeEvent "/src/a" .change savedWatch⟩)] := by
  -- one evaluation, so that the document is read once
  obtain ⟨hknown, hidle, htime, hregistered, hroot⟩ :
      ((new leisurely).occurAll readSaved).1.triggers[0]? = some saved ∧
        (((new leisurely).occurAll readSaved).1.alarmsOf 0).live.isEmpty = true ∧
        ((new leisurely).occurAll readSaved).1.keepsTime 0 2000 1000 savedTwice = true ∧
        0 ∈ (((new leisurely).occurAll readSaved).1.course savedTwice).1.table ∧
        ((new leisurely).occurAll readSaved).1.settings.workspaceRoot = "/" := by decide +kernel
  have hfirings := (firings_of_reports leisurely readSaved rfl 0 1000 2000 saved savedWatch
    savedTwice hknown rfl (List.isEmpty_iff.mp hidle) (punctual_of_keepsTime htime)
    hregistered).1.firings
  have hattempts : saved.cooldown.admitted (attemptsFor savedWatch.debounce 2000
      (savedWatch.reports "/" savedTwice)) = [(1160, ⟨1060, "/src/a", .change⟩)] := by
    decide +kernel
  rw [hfirings, hroot, hattempts]
  rfl

end Manager

end Workflow
