import Workflow.Manager.Refresh
import Workflow.Proofs.WebhookAnswers

/- Courses of a manager: whatever can be done to it, in any order. Every move of a
   refresh is an act of its own, so anything may come between two of them; an alarm
   may ring at any time. `perform_frame` says which parts of the manager an act can
   touch, and `course_invariant` is the induction over a course. -/
namespace Workflow

/-- The firing that a ring gives rise to. -/
def Manager.Ring.firing? : Manager.Ring → Option Firing
  | .firing f => some f
  | _ => none

@[simp] theorem Manager.Ring.firing?_ofFiring? (f : Option Firing) :
    (Manager.Ring.ofFiring? f).firing? = f := by
  cases f <;> rfl

namespace Manager

/-- What can be done to a manager, each at once. -/
inductive Act where
  | start
  /-- A refresh asked for. -/
  | refresh
  /-- A refresh that is under way carried on by one move. -/
  | proceed (now : Nat) (tree : FileTree) (bindable : Bool) (place : Nat)
  | change (now : Nat) (path : String) (kind : ChangeKind)
  /-- An alarm rings. If it rings for a refresh, that is asked for by an act of its own. -/
  | ring (now : Nat) (timestamp : String) (alarm : Nat)
  | fire (now : Nat) (id : String) (event : Json)
  | request (now : Nat) (request : Http.Request)
  | setPort (port : Nat)
  | shutdown

/-- The manager after an act, and the firings that come of it. -/
def perform (m : Manager) : Act → Manager × List Firing
  | .start => (m.start, [])
  | .refresh => (m.requestRefresh, [])
  | .proceed now tree bindable place => (m.proceedAt now tree bindable place, [])
  | .change now path kind => (m.change now path kind, [])
  | .ring now timestamp alarm =>
    ((m.ring now timestamp alarm).1, (m.ring now timestamp alarm).2.firing?.toList)
  | .fire now id event => ((m.fire now id event).1, (m.fire now id event).2.toList)
  | .request now r => ((m.handle now r).1, (m.handle now r).2.2)
  | .setPort port => (m.setPort port, [])
  | .shutdown => (m.shutdown, [])

/-- The manager after acts, and all the firings that come of them. -/
def course (m : Manager) : List Act → Manager × List Firing
  | [] => (m, [])
  | a :: rest =>
    (((m.perform a).1.course rest).1, (m.perform a).2 ++ ((m.perform a).1.course rest).2)

@[simp] theorem course_nil (m : Manager) : m.course [] = (m, []) := rfl

theorem course_append (m : Manager) (first later : List Act) :
    m.course (first ++ later) =
      (((m.course first).1.course later).1,
        (m.course first).2 ++ ((m.course first).1.course later).2) := by
  induction first generalizing m with
  | nil => rfl
  | cons a rest ih => simp [course, ih]

/-- What every act keeps holds at the end of a course. -/
theorem course_invariant (P : Manager → Prop) (hstep : ∀ m a, P m → P (m.perform a).1)
    {m : Manager} (h : P m) (acts : List Act) : P (m.course acts).1 := by
  induction acts generalizing m with
  | nil => exact h
  | cons a rest ih => exact ih (hstep m a h)

/-! ## What acts touch -/

theorem attempt_frame (m : Manager) (now t : Nat) (event : Json) :
    (m.attempt now t event).1 = { m with triggers := (m.attempt now t event).1.triggers } := by
  have h := attempt_spec m now t event
  generalize m.attempt now t event = out at h
  cases h <;> rfl

theorem fire_frame (m : Manager) (now : Nat) (id : String) (event : Json) :
    (m.fire now id event).1 = { m with triggers := (m.fire now id event).1.triggers } := by
  unfold fire
  split
  · exact attempt_frame ..
  · rfl

/-- The triggers that stand on the path of a request and take its method, in order. -/
def candidates (m : Manager) (r : Http.Request) : List Nat :=
  (m.routed r.target.path).filter fun t => (m.hook? t).any (·.method == r.method)

/-- A request handled is its candidates asked one after the other; the answer aside, that is so
when there are none, too. -/
theorem handle_asking (m : Manager) (now : Nat) (r : Http.Request) :
    ∃ a, Asking m now r (m.candidates r) a ∧ (m.handle now r).1 = a.manager ∧
      (m.handle now r).2.2 = a.firings ∧ (m.candidates r ≠ [] →
        (m.handle now r).2.1 = .ofCounts a.firings.length a.cooling) := by
  have hall := (Asking.start m now r).all (m.candidates r)
  rw [List.nil_append] at hall
  refine ⟨_, hall, ?_⟩
  have hrouted : (Table.get? m.routes r.target.path).getD [] = m.routed r.target.path := rfl
  unfold handle
  rw [hrouted]
  cases hp : m.routed r.target.path with
  | nil =>
    have hnone : m.candidates r = [] := by simp [candidates, hp]
    rw [hnone]
    exact ⟨rfl, rfl, fun hne => absurd rfl hne⟩
  | cons t rest =>
    have hsome : (t :: rest).filter (fun t => (m.hook? t).any (·.method == r.method)) =
        m.candidates r := by rw [candidates, hp]
    dsimp only
    rw [hsome]
    cases m.candidates r with
    | nil => exact ⟨rfl, rfl, fun hne => absurd rfl hne⟩
    | cons first others => exact ⟨rfl, rfl, fun _ => rfl⟩

theorem handle_frame (m : Manager) (now : Nat) (r : Http.Request) :
    (m.handle now r).1 = { m with triggers := (m.handle now r).1.triggers } := by
  obtain ⟨a, ha, hm, -⟩ := m.handle_asking now r
  rw [hm]
  exact ha.frame

theorem attempt_with_alarms (m : Manager) (alarms : Alarms AlarmKey AlarmTask) (now t : Nat)
    (event : Json) :
    { m with alarms }.attempt now t event =
      ({ (m.attempt now t event).1 with alarms }, (m.attempt now t event).2) := by
  unfold attempt
  dsimp only
  cases m.triggers[t]? with
  | none => rfl
  | some live =>
    dsimp only
    by_cases hd : live.disposed = true
    · rw [if_pos hd, if_pos hd]
    · rw [if_neg hd, if_neg hd]
      by_cases ha : (live.cooldown.acquire now).2 = true
      · rw [if_pos ha, if_pos ha]
      · rw [if_neg ha, if_neg ha]

/-- What an alarm that rings comes to. -/
inductive Rung (m : Manager) (now : Nat) (timestamp : String) (number : Nat) :
    Manager × Ring → Prop where
  | absent (missing : m.alarms.find? number = none) : Rung m now timestamp number (m, .nothing)
  | refresh {a : Alarm AlarmKey AlarmTask} (found : m.alarms.find? number = some a)
      (item : a.item = .refresh) :
      Rung m now timestamp number ({ m with alarms := m.alarms.drop number }, .refresh)
  | change {a : Alarm AlarmKey AlarmTask} (found : m.alarms.find? number = some a) {t : Nat}
      {event : Json} (item : a.item = .change t event) :
      Rung m now timestamp number
        ({ (m.attempt now t event).1 with alarms := m.alarms.drop number },
          .ofFiring? (m.attempt now t event).2)
  | tick {a : Alarm AlarmKey AlarmTask} (found : m.alarms.find? number = some a)
      {t deadline interval : Nat} (item : a.item = .tick t deadline)
      (timer : (m.definition? t).map TriggerDefinition.spec = some (.cron interval)) :
      Rung m now timestamp number
        ({ (m.attempt now t (tickEvent interval timestamp)).1 with
            alarms := (m.alarms.drop number).set (.tick t)
              (Schedule.ceilMillis (Schedule.nextTick now deadline interval))
              (.tick t (Schedule.nextTick now deadline interval)) },
          .ofFiring? (m.attempt now t (tickEvent interval timestamp)).2)
  | stray {a : Alarm AlarmKey AlarmTask} (found : m.alarms.find? number = some a)
      {t deadline : Nat} (item : a.item = .tick t deadline)
      (gone : ∀ interval, (m.definition? t).map TriggerDefinition.spec ≠ some (.cron interval)) :
      Rung m now timestamp number ({ m with alarms := m.alarms.drop number }, .nothing)

theorem rung (m : Manager) (now : Nat) (timestamp : String) (number : Nat) :
    Rung m now timestamp number (m.ring now timestamp number) := by
  unfold ring
  split
  · rename_i hnone
    exact .absent hnone
  · rename_i a ha
    dsimp only
    split
    · rename_i hitem
      exact .refresh ha hitem
    · rename_i t event hitem
      rw [attempt_with_alarms]
      exact .change ha hitem
    · rename_i t deadline hitem
      split
      · rename_i interval hspec
        rw [attempt_with_alarms]
        exact .tick ha hitem hspec
      · rename_i hgone
        exact .stray ha hitem hgone

theorem ring_frame (m : Manager) (now : Nat) (timestamp : String) (alarm : Nat) :
    (m.ring now timestamp alarm).1 =
      { m with
        triggers := (m.ring now timestamp alarm).1.triggers
        alarms := (m.ring now timestamp alarm).1.alarms } := by
  have h := m.rung now timestamp alarm
  generalize m.ring now timestamp alarm = out at h
  cases h with
  | absent | refresh | stray => rfl
  | change | tick =>
    dsimp only
    rw [attempt_frame]

theorem scheduleChange_frame (m : Manager) (now : Nat) (path : String) (kind : ChangeKind)
    (t : Nat) :
    m.scheduleChange now path kind t =
      { m with alarms := (m.scheduleChange now path kind t).alarms } := by
  unfold scheduleChange
  split <;> rfl

theorem scheduleChanges_frame (now : Nat) (path : String) (kind : ChangeKind) (ts : List Nat)
    (m : Manager) :
    ts.foldl (fun m t => m.scheduleChange now path kind t) m =
      { m with alarms := (ts.foldl (fun m t => m.scheduleChange now path kind t) m).alarms } := by
  induction ts generalizing m with
  | nil => rfl
  | cons t rest ih =>
    rw [List.foldl_cons, scheduleChange_frame]
    exact ih _

theorem change_frame (m : Manager) (now : Nat) (path : String) (kind : ChangeKind) :
    m.change now path kind = { m with alarms := (m.change now path kind).alarms } := by
  unfold change
  dsimp only
  split
  · rw [scheduleChanges_frame]
    rfl
  · exact scheduleChanges_frame ..

/-- Whether an act is one of the manager's daily business: a change, a ring, a firing by hand or a
request. -/
def Act.isDaily : Act → Bool
  | .change _ _ _ | .ring _ _ _ | .fire _ _ _ | .request _ _ => true
  | _ => false

/-- The daily business touches nothing but triggers and alarms. -/
theorem perform_frame {a : Act} (h : a.isDaily = true) (m : Manager) :
    ∃ triggers alarms, (m.perform a).1 = { m with triggers, alarms } := by
  cases a with
  | change now path kind => exact ⟨_, _, m.change_frame now path kind⟩
  | ring now timestamp alarm => exact ⟨_, _, m.ring_frame now timestamp alarm⟩
  | fire now id event => exact ⟨_, _, m.fire_frame now id event⟩
  | request now r => exact ⟨_, _, m.handle_frame now r⟩
  | start | refresh | proceed | setPort | shutdown => cases h

/-- A request for a refresh changes nothing else. -/
theorem requestRefresh_frame (m : Manager) :
    m.requestRefresh =
      { m with
        refreshing := m.requestRefresh.refreshing
        pending := m.requestRefresh.pending
        passes := m.requestRefresh.passes } := by
  unfold requestRefresh
  split <;> rfl

/-- What is done about the listener. -/
inductive Synced (m : Manager) : Manager × RefreshPass → Prop where
  | unneeded (unrouted : m.routes.isEmpty = true) (unbound : m.listener = none) :
      Synced m (m, .passed)
  | kept (routed : m.routes.isEmpty = false) (bound : m.listener = some m.port) :
      Synced m (m, .passed)
  | stop (unrouted : m.routes.isEmpty = true) (bound : m.listener ≠ none) :
      Synced m ({ m with listener := none }, .stopping none)
  | move (routed : m.routes.isEmpty = false) {port : Nat} (bound : m.listener = some port)
      (other : port ≠ m.port) :
      Synced m ({ m with listener := none }, .stopping (some m.port))
  | bind (routed : m.routes.isEmpty = false) (unbound : m.listener = none) :
      Synced m (m, .binding m.port)

theorem synced (m : Manager) : Synced m m.syncListener := by
  unfold syncListener
  split
  · rename_i hr hl
    exact .unneeded (by simpa using hr) hl
  · rename_i hr hl
    exact .stop (by simpa using hr) (by simp [hl])
  · rename_i hr hl
    exact .bind (by simpa using hr) hl
  · rename_i port hr hl
    split
    · rename_i hp
      exact .kept (by simpa using hr) (by rw [hl, hp])
    · rename_i hp
      exact .move (by simpa using hr) hl hp

theorem Synced.frame {m : Manager} {out : Manager × RefreshPass} (h : Synced m out) :
    out.1 = { m with listener := out.1.listener } ∧ out.2 ≠ .ready := by
  cases h <;> exact ⟨rfl, by simp⟩

theorem install_frame (m : Manager) (now : Nat) (found : List TriggerDefinition) :
    m.install now found =
      { m with
        triggers := (m.install now found).triggers
        table := (m.install now found).table
        routes := (m.install now found).routes
        alarms := (m.install now found).alarms } := by
  unfold install
  rw [startTimers_frame]

/-- A pass touches neither the refreshes under way nor the settings. -/
theorem pass_frame (m : Manager) (now : Nat) (tree : FileTree) :
    (m.pass now tree).1 =
      { m with
        triggers := (m.pass now tree).1.triggers
        table := (m.pass now tree).1.table
        routes := (m.pass now tree).1.routes
        listener := (m.pass now tree).1.listener
        alarms := (m.pass now tree).1.alarms } := by
  unfold pass
  dsimp only
  split
  · rfl
  · rw [(synced _).frame.1, install_frame]
    rfl

theorem pass_next (m : Manager) (now : Nat) (tree : FileTree) : (m.pass now tree).2 ≠ .ready := by
  unfold pass
  dsimp only
  split
  · simp
  · exact (synced _).frame.2

end Manager

end Workflow
