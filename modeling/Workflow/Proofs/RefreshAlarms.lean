import Workflow.Proofs.WatchFirings

/- The alarm for a refresh that follows changes of documents. At most one is set, and only a
   change of a document, its own ring and a shutdown touch it (`Waits.other`). As long as it
   rings on time and the refresh is then asked for (`Prompt`), the refreshes are those of the
   reports that are the last of their bursts (`refreshTimes_of_prompt`), and a report after
   which no other one comes is followed by a refresh (`Waits.rings`). -/
namespace Workflow

/-! ## Bursts of reports -/

/-- The reports that are not followed by another one before a delay is over. -/
def lastOfBursts (delay : Nat) : List Report → List Report
  | [] => []
  | r :: later =>
    if ∃ s ∈ later, s.time < r.time + delay then lastOfBursts delay later
    else r :: lastOfBursts delay later

section Bursts

variable {delay : Nat} {r : Report} {reports : List Report}

theorem lastOfBursts_sublist (delay : Nat) (reports : List Report) :
    (lastOfBursts delay reports).Sublist reports := by
  induction reports with
  | nil => exact List.Sublist.slnil
  | cons r later ih =>
    unfold lastOfBursts
    split
    · exact ih.cons r
    · exact ih.cons_cons r

/-- They are a delay apart. -/
theorem lastOfBursts_apart (delay : Nat) (reports : List Report) :
    (lastOfBursts delay reports).Pairwise fun r s => r.time + delay ≤ s.time := by
  induction reports with
  | nil => exact List.Pairwise.nil
  | cons r later ih =>
    unfold lastOfBursts
    split
    case isTrue => exact ih
    case isFalse hlast =>
      refine List.pairwise_cons.mpr ⟨fun s hs => Nat.not_lt.mp fun hsoon => hlast ⟨s, ?_, hsoon⟩, ih⟩
      exact (lastOfBursts_sublist delay later).subset hs

theorem mem_lastOfBursts : r ∈ lastOfBursts delay reports ↔
    ∃ before after, reports = before ++ r :: after ∧ ∀ s ∈ after, r.time + delay ≤ s.time := by
  induction reports with
  | nil => simp [lastOfBursts]
  | cons x later ih =>
    have hsplit : (∃ before after, x :: later = before ++ r :: after ∧
          ∀ s ∈ after, r.time + delay ≤ s.time) ↔
        (x = r ∧ ∀ s ∈ later, r.time + delay ≤ s.time) ∨ r ∈ lastOfBursts delay later := by
      rw [ih]
      constructor
      · rintro ⟨before, after, heq, hafter⟩
        cases before with
        | nil =>
          obtain ⟨rfl, rfl⟩ := List.cons.inj heq
          exact .inl ⟨rfl, hafter⟩
        | cons y before =>
          obtain ⟨-, rfl⟩ := List.cons.inj heq
          exact .inr ⟨before, after, rfl, hafter⟩
      · rintro (⟨rfl, hafter⟩ | ⟨before, after, rfl, hafter⟩)
        · exact ⟨[], later, rfl, hafter⟩
        · exact ⟨x :: before, after, rfl, hafter⟩
    rw [hsplit, lastOfBursts]
    split
    case isTrue hfollowed =>
      obtain ⟨s, hs, hsoon⟩ := hfollowed
      have hnot : ¬ (x = r ∧ ∀ s ∈ later, r.time + delay ≤ s.time) := by
        rintro ⟨rfl, hafter⟩
        exact absurd (hafter s hs) (Nat.not_le.mpr hsoon)
      simp [hnot]
    case isFalse hlast =>
      have hafter : ∀ s ∈ later, x.time + delay ≤ s.time := by
        intro s hs
        exact Nat.not_lt.mp fun hsoon => hlast ⟨s, hs, hsoon⟩
      rw [List.mem_cons]
      constructor
      · rintro (rfl | hmem)
        · exact .inl ⟨rfl, hafter⟩
        · exact .inr hmem
      · rintro (⟨rfl, -⟩ | hmem)
        · exact .inl rfl
        · exact .inr hmem

end Bursts

/-! ## The alarm -/

namespace Manager

/-- The alarm for a refresh, if one is set. -/
def refreshAlarm (m : Manager) : Alarms AlarmKey AlarmTask := m.alarms.cancel (· != .refresh)

/-- The time of an act if it is the ring of that alarm: a refresh is asked for then. -/
def asked? (m : Manager) : Act → Option Nat
  | .ring now timestamp number =>
    match (m.ring now timestamp number).2 with
    | .refresh => some now
    | _ => none
  | _ => none

/-- The times in a course at which refreshes are asked for because of changes of documents. -/
def refreshTimes (m : Manager) : List Act → List Nat
  | [] => []
  | a :: rest => (m.asked? a).toList ++ (m.perform a).1.refreshTimes rest

/-- The reports in a course that a refresh is to follow. -/
def documentReports (m : Manager) (acts : List Act) : List Report :=
  (acts.filterMap Act.report?).filter fun r => m.concerns r.path

/-- Whether the alarm for a refresh is set for a time, or not set. -/
structure Waits (m : Manager) (due? : Option Nat) : Prop where
  wired : m.Wired
  alarm : m.refreshAlarm.settings = due?.toList.map fun due => (.refresh, due, .refresh)

section RefreshAlarm

variable {m : Manager} {due? : Option Nat}

theorem refreshAlarm_scheduleChanges (ts : List Nat) (m : Manager) (now : Nat) (path : String)
    (kind : ChangeKind) :
    (ts.foldl (fun m t => m.scheduleChange now path kind t) m).refreshAlarm.live =
      m.refreshAlarm.live := by
  induction ts generalizing m with
  | nil => rfl
  | cons t rest ih =>
    rw [List.foldl_cons, ih]
    unfold scheduleChange
    split
    · exact Alarms.cancel_set_of_other _ (by simp) _ _
    · rfl

/-- A change of a document sets the alarm anew, and no other change touches it. -/
theorem refreshAlarm_change (m : Manager) (now : Nat) (path : String) (kind : ChangeKind) :
    (m.change now path kind).refreshAlarm.settings =
      if m.concerns path then [(.refresh, now + m.settings.refreshDebounce, .refresh)]
      else m.refreshAlarm.settings := by
  have hscheduled : ∀ n : Manager,
      (n.table.foldl (fun m t => m.scheduleChange now path kind t) n).refreshAlarm.settings =
        n.refreshAlarm.settings := fun n =>
    congrArg (List.map _) (refreshAlarm_scheduleChanges n.table n now path kind)
  unfold change
  dsimp only
  rw [hscheduled]
  split
  · have hreplaced : m.refreshAlarm.settings.filter (·.1 != .refresh) = [] := by
      rw [List.filter_eq_nil_iff]
      intro x hx
      obtain ⟨a, ha, rfl⟩ := List.mem_map.mp hx
      simpa [refreshAlarm, Alarms.cancel] using (List.mem_filter.mp ha).2
    have hset : (m.scheduleRefresh now).refreshAlarm.settings = _ :=
      Alarms.settings_cancel_set _ rfl _ _
    refine hset.trans ?_
    rw [show (m.alarms.cancel (· != AlarmKey.refresh)).settings = m.refreshAlarm.settings from rfl,
      hreplaced]
    rfl
  · rfl

theorem refreshAlarm_clear (m : Manager) : m.clear.refreshAlarm.live = m.refreshAlarm.live := by
  show (m.alarms.live.filter _).filter _ = m.alarms.live.filter _
  rw [List.filter_filter]
  refine List.filter_congr fun a _ => ?_
  -- the alarm for a refresh belongs to no trigger
  by_cases hkey : a.key = .refresh
  · simp [hkey, AlarmKey.trigger?]
  · simp [hkey]

theorem refreshAlarm_install (m : Manager) (now : Nat) (found : List TriggerDefinition) :
    (m.install now found).refreshAlarm.live = m.refreshAlarm.live := by
  have htimers : ∀ (numbered : List (TriggerDefinition × Nat)) (m : Manager),
      (numbered.foldl (startTimer now) m).refreshAlarm.live = m.refreshAlarm.live := by
    intro numbered
    induction numbered with
    | nil => exact fun _ => rfl
    | cons d rest ih =>
      intro m
      rw [List.foldl_cons, ih]
      unfold startTimer
      split
      · exact Alarms.cancel_set_of_other _ (by simp) _ _
      · rfl
  exact htimers _ _

theorem refreshAlarm_pass (m : Manager) (now : Nat) (tree : FileTree) :
    (m.pass now tree).1.refreshAlarm.live = m.refreshAlarm.live := by
  unfold pass
  dsimp only
  split
  · exact m.refreshAlarm_clear
  · rw [(synced _).frame.1]
    show (m.clear.install now _).refreshAlarm.live = _
    rw [refreshAlarm_install, refreshAlarm_clear]

theorem refreshAlarm_proceedAt (m : Manager) (now : Nat) (tree : FileTree) (bindable : Bool)
    (place : Nat) : (m.proceedAt now tree bindable place).refreshAlarm.live = m.refreshAlarm.live := by
  unfold proceedAt
  split
  · rfl
  · rename_i p _
    cases p with
    | ready => exact m.refreshAlarm_pass now tree
    | stopping port => cases port <;> rfl
    | binding port => cases bindable <;> rfl
    | passed =>
      unfold proceed endPass
      dsimp only
      split <;> rfl

theorem refreshAlarm_ring (h : m.Wired) {now : Nat} {timestamp : String} {number : Nat}
    (unasked : m.asked? (.ring now timestamp number) = none) :
    (m.ring now timestamp number).1.refreshAlarm.live = m.refreshAlarm.live := by
  have hother : ∀ {a : Alarm AlarmKey AlarmTask}, m.alarms.find? number = some a →
      a.item ≠ .refresh → (a.key != .refresh) = true := by
    intro a found hitem
    rw [bne_iff_ne]
    intro hkey
    have hsuits := (h.suited found).2
    rw [hkey] at hsuits
    cases hi : a.item with
    | refresh => exact hitem hi
    | tick | change => rw [hi] at hsuits; exact hsuits
  have hrung := m.rung now timestamp number
  unfold asked? at unasked
  dsimp only at unasked
  generalize m.ring now timestamp number = out at hrung unasked
  cases hrung with
  | absent => rfl
  | refresh found item => cases unasked
  | change found item | stray found item =>
    exact h.sound.cancel_drop found (hother found (by simp [item]))
  | tick found item timer =>
    show (((m.alarms.drop number).set _ _ _).cancel _).live = _
    rw [Alarms.cancel_set_of_other _ (by simp)]
    exact h.sound.cancel_drop found (hother found (by simp [item]))

/-- What is neither a change of a file nor the ring of the alarm nor a shutdown leaves the alarm
alone. -/
theorem Waits.other (h : m.Waits due?) {a : Act} (other : a.report? = none)
    (unasked : m.asked? a = none) (unshut : a ≠ .shutdown) : (m.perform a).1.Waits due? := by
  refine ⟨h.wired.perform a, ?_⟩
  have hlive : (m.perform a).1.refreshAlarm.live = m.refreshAlarm.live := by
    cases a with
    | start | refresh =>
      show (requestRefresh _).refreshAlarm.live = _
      rw [requestRefresh_frame]
      rfl
    | proceed now tree bindable place => exact refreshAlarm_proceedAt ..
    | change now path kind => cases other
    | ring now timestamp number => exact refreshAlarm_ring h.wired unasked
    | fire now id event =>
      show (m.fire now id event).1.refreshAlarm.live = _
      rw [fire_frame]
      rfl
    | request now r =>
      show (m.handle now r).1.refreshAlarm.live = _
      rw [handle_frame]
      rfl
    | setPort port => rfl
    | shutdown => exact absurd rfl unshut
  rw [← h.alarm]
  exact congrArg (List.map _) hlive

/-- A change of a document puts the refresh off. -/
theorem Waits.change (h : m.Waits due?) (now : Nat) (path : String) (kind : ChangeKind) :
    (m.perform (.change now path kind)).1.Waits
      (if m.concerns path then some (now + m.settings.refreshDebounce) else due?) := by
  refine ⟨h.wired.perform _, ?_⟩
  have halarm := m.refreshAlarm_change now path kind
  rw [h.alarm] at halarm
  refine halarm.trans ?_
  split <;> rfl

/-- At most one alarm is set. -/
theorem Waits.live (h : m.Waits due?) :
    (due? = none ∧ m.refreshAlarm.live = []) ∨
      ∃ a, due? = some a.due ∧ m.refreshAlarm.live = [a] ∧ a.item = .refresh := by
  have halarm := h.alarm
  unfold Alarms.settings at halarm
  cases due? with
  | none => exact .inl ⟨rfl, List.map_eq_nil_iff.mp halarm⟩
  | some due =>
    obtain ⟨a, rest, hlive, ha, hrest⟩ := List.map_eq_cons_iff.mp halarm
    obtain ⟨-, hdue, hitem⟩ : a.key = .refresh ∧ a.due = due ∧ a.item = .refresh := by
      simpa using ha
    rw [List.map_eq_nil_iff.mp hrest] at hlive
    exact .inr ⟨a, congrArg some hdue.symm, hlive, hitem⟩

/-- While the alarm is not due, a refresh that waits is to come later. -/
theorem Waits.lt_of_none_due (h : m.Waits due?) {time : Nat}
    (none_due : m.refreshAlarm.first? time = none) : ∀ due ∈ due?, time < due := by
  rintro due hdue
  obtain ⟨rfl, -⟩ | ⟨a, rfl, hlive, -⟩ := h.live
  · cases hdue
  · cases hdue
    by_contra hle
    simp [Alarms.first?, hlive, Nat.not_lt.mp hle] at none_due

/-- An alarm that is due rings at its own time. -/
theorem Waits.due_of_first (h : m.Waits due?) {time : Nat} {a : Alarm AlarmKey AlarmTask}
    (first : m.refreshAlarm.first? time = some a) :
    due? = some a.due ∧ a.due ≤ time ∧ m.refreshAlarm.first? a.due = some a ∧
      m.refreshAlarm.live = [a] ∧ a.item = .refresh := by
  obtain ⟨-, hlive⟩ | ⟨b, hdue, hlive, hitem⟩ := h.live
  · simp [Alarms.first?, hlive] at first
  · by_cases hle : b.due ≤ time
    · obtain rfl : b = a := by simpa [Alarms.first?, hlive, hle] using first
      exact ⟨hdue, hle, by simp [Alarms.first?, hlive], hlive, hitem⟩
    · simp [Alarms.first?, hlive, hle] at first

/-- When the alarm rings, a refresh is asked for, and the alarm is not set any more. -/
theorem Waits.ring (h : m.Waits due?) {time : Nat} {a : Alarm AlarmKey AlarmTask}
    (first : m.refreshAlarm.first? time = some a) (timestamp : String) :
    m.asked? (.ring a.due timestamp a.number) = some a.due ∧
      (m.perform (.ring a.due timestamp a.number)).1.Waits none := by
  obtain ⟨-, -, -, hlive, hitem⟩ := h.due_of_first first
  have hmem : a ∈ m.alarms.live := by
    have hmem : a ∈ m.refreshAlarm.live := by simp [hlive]
    exact List.mem_of_mem_filter hmem
  have hring : m.ring a.due timestamp a.number =
      ({ m with alarms := m.alarms.drop a.number }, .refresh) := by
    simp only [Manager.ring, h.wired.sound.find?_of_mem hmem, hitem]
  refine ⟨by simp [asked?, hring], h.wired.perform _, ?_⟩
  show (m.ring a.due timestamp a.number).1.refreshAlarm.settings = _
  rw [hring]
  show List.map _ ((m.alarms.drop a.number).cancel (· != AlarmKey.refresh)).live = _
  rw [h.wired.sound.cancel_drop_first hlive]
  rfl

end RefreshAlarm

/-! ## Courses -/

/-- A course from a time on, until a limit, in which the alarm for a refresh rings when it is due,
and when it has rung, a refresh is asked for before time goes on. Anything but a shutdown may be
done in between. -/
inductive Prompt (limit : Nat) : Manager → Nat → Bool → List Act → Prop where
  | done {m : Manager} {now : Nat} (time : now ≤ limit)
      (none_due : m.refreshAlarm.first? limit = none) : Prompt limit m now false []
  | ring {m : Manager} {now : Nat} {asked : Bool} {a : Alarm AlarmKey AlarmTask} {rest : List Act}
      (timestamp : String) (time : now ≤ a.due) (settled : asked = true → a.due = now)
      (first : m.refreshAlarm.first? a.due = some a)
      (after : Prompt limit (m.perform (.ring a.due timestamp a.number)).1 a.due true rest) :
      Prompt limit m now asked (.ring a.due timestamp a.number :: rest)
  | refresh {m : Manager} {now : Nat} {asked : Bool} {rest : List Act}
      (after : Prompt limit (m.perform .refresh).1 now false rest) :
      Prompt limit m now asked (.refresh :: rest)
  | act {m : Manager} {now : Nat} {asked : Bool} {a : Act} {rest : List Act}
      (time : now ≤ a.timeFrom now) (settled : asked = true → a.timeFrom now = now)
      (none_due : m.refreshAlarm.first? (a.timeFrom now) = none) (unasked : m.asked? a = none)
      (unshut : a ≠ .shutdown) (after : Prompt limit (m.perform a).1 (a.timeFrom now) asked rest) :
      Prompt limit m now asked (a :: rest)

section Prompt

variable {limit now : Nat} {asked : Bool} {m : Manager} {acts : List Act}

theorem Prompt.le_limit (h : Prompt limit m now asked acts) : now ≤ limit := by
  induction h with
  | done time => exact time
  | ring timestamp time settled first after ih => exact Nat.le_trans time ih
  | refresh after ih => exact ih
  | act time settled none_due unasked unshut after ih => exact Nat.le_trans time ih

theorem Prompt.le_reported (h : Prompt limit m now asked acts) :
    ∀ r ∈ acts.filterMap Act.report?, now ≤ r.time := by
  induction h with
  | done => exact fun r hr => absurd hr List.not_mem_nil
  | ring timestamp time settled first after ih => exact fun r hr => Nat.le_trans time (ih r hr)
  | refresh after ih => exact ih
  | @act m now asked a rest time settled none_due unasked unshut after ih =>
    intro r hr
    rw [List.filterMap_cons] at hr
    cases a with
    | change τ path kind =>
      rcases List.mem_cons.mp hr with rfl | hr
      · exact time
      · exact Nat.le_trans time (ih r hr)
    | _ => exact Nat.le_trans time (ih r hr)

theorem Prompt.ordered (h : Prompt limit m now asked acts) :
    (acts.filterMap Act.report?).Pairwise fun r s => r.time ≤ s.time := by
  induction h with
  | done => exact List.Pairwise.nil
  | ring timestamp time settled first after ih => exact ih
  | refresh after ih => exact ih
  | @act m now asked a rest time settled none_due unasked unshut after ih =>
    rw [List.filterMap_cons]
    cases a with
    | change τ path kind => exact List.pairwise_cons.mpr ⟨fun s hs => after.le_reported s hs, ih⟩
    | _ => exact ih

theorem concerns_perform (m : Manager) (a : Act) (path : String) :
    (m.perform a).1.concerns path = m.concerns path := by
  unfold concerns
  rw [settings_perform]

theorem documentReports_perform (m : Manager) (a : Act) (acts : List Act) :
    (m.perform a).1.documentReports acts = m.documentReports acts := by
  unfold documentReports
  simp only [concerns_perform]

theorem documentReports_cons_of_none {a : Act} (h : a.report? = none) (rest : List Act) :
    m.documentReports (a :: rest) = m.documentReports rest := by
  unfold documentReports
  rw [List.filterMap_cons, h]

theorem documentReports_change (now : Nat) (path : String) (kind : ChangeKind) (rest : List Act) :
    m.documentReports (.change now path kind :: rest) =
      if m.concerns path then ⟨now, path, kind⟩ :: m.documentReports rest
      else m.documentReports rest := by
  have hreports : (Act.change now path kind :: rest).filterMap Act.report? =
      ⟨now, path, kind⟩ :: rest.filterMap Act.report? := rfl
  unfold documentReports
  rw [hreports, List.filter_cons]

/-- The manager waits for the refresh of a report, if any. -/
def WaitsFor (m : Manager) (waiting : Option Report) : Prop :=
  m.Waits (waiting.map (·.time + m.settings.refreshDebounce))

theorem WaitsFor.other {waiting : Option Report} (h : m.WaitsFor waiting) {a : Act}
    (other : a.report? = none) (unasked : m.asked? a = none) (unshut : a ≠ .shutdown) :
    (m.perform a).1.WaitsFor waiting := by
  unfold WaitsFor
  rw [settings_perform]
  exact Waits.other h other unasked unshut

theorem WaitsFor.change {waiting : Option Report} (h : m.WaitsFor waiting) (now : Nat)
    (path : String) (kind : ChangeKind) :
    (m.perform (.change now path kind)).1.WaitsFor
      (if m.concerns path then some ⟨now, path, kind⟩ else waiting) := by
  unfold WaitsFor
  rw [settings_perform]
  have hwaits := Waits.change h now path kind
  by_cases hconcerns : m.concerns path = true
  · rw [if_pos hconcerns] at hwaits ⊢
    exact hwaits
  · rw [if_neg hconcerns] at hwaits ⊢
    exact hwaits

/-- A report for whose refresh the manager waits is not the last of its burst if another one is
made before that. -/
theorem WaitsFor.replaced {waiting : Option Report} (h : m.WaitsFor waiting) {r : Report}
    (none_due : m.refreshAlarm.first? r.time = none) (later : List Report) :
    lastOfBursts m.settings.refreshDebounce (waiting.toList ++ r :: later) =
      lastOfBursts m.settings.refreshDebounce (r :: later) := by
  cases waiting with
  | none => rfl
  | some x =>
    have hsoon := Waits.lt_of_none_due h none_due _ rfl
    have hfollowed : ∃ s ∈ r :: later, s.time < x.time + m.settings.refreshDebounce :=
      ⟨r, List.mem_cons_self, hsoon⟩
    show lastOfBursts _ (x :: r :: later) = _
    rw [lastOfBursts, if_pos hfollowed]

/-- The refreshes that are asked for because of changes of documents are those of the reports that
are the last of their bursts. -/
theorem refreshTimes_of_prompt {waiting : Option Report} (h : m.WaitsFor waiting)
    (hp : Prompt limit m now asked acts) :
    m.refreshTimes acts =
      ((lastOfBursts m.settings.refreshDebounce
        (waiting.toList ++ m.documentReports acts)).map
          (·.time + m.settings.refreshDebounce)).filter (· ≤ limit) := by
  -- by induction on the course; what is carried along is that the alarm is that of the report
  -- that waits
  induction hp generalizing waiting with
  | @done m now time none_due =>
    cases waiting with
    | none => rfl
    | some r =>
      have hlate := Waits.lt_of_none_due h none_due _ rfl
      have hlast : lastOfBursts m.settings.refreshDebounce [r] = [r] := by simp [lastOfBursts]
      show [] = ((lastOfBursts _ [r]).map _).filter _
      rw [hlast]
      simpa using hlate
  | @ring m now asked a rest timestamp time settled first after ih =>
    obtain ⟨hasked, hnext⟩ := Waits.ring h first timestamp
    obtain ⟨r, rfl, hr⟩ := Option.map_eq_some_iff.mp (Waits.due_of_first h first).1
    have hwaits : (m.perform (.ring a.due timestamp a.number)).1.WaitsFor none := hnext
    rw [refreshTimes, hasked, ih hwaits, settings_perform, documentReports_perform,
      documentReports_cons_of_none rfl]
    -- the reports that are still to be made come too late to put the refresh off
    have hlast : ¬ ∃ s ∈ m.documentReports rest, s.time < r.time + m.settings.refreshDebounce := by
      rintro ⟨s, hs, hsoon⟩
      have := after.le_reported s (List.mem_of_mem_filter hs)
      omega
    have hin : a.due ≤ limit := after.le_limit
    show _ = ((lastOfBursts _ (r :: m.documentReports rest)).map _).filter _
    rw [lastOfBursts, if_neg hlast, List.map_cons, hr, List.filter_cons_of_pos (by simpa using hin)]
    rfl
  | @refresh m now asked rest after ih =>
    have hwaits := h.other (a := .refresh) rfl rfl (by simp)
    rw [refreshTimes, ih hwaits, settings_perform, documentReports_perform,
      documentReports_cons_of_none rfl]
    rfl
  | @act m now asked a rest time settled none_due unasked unshut after ih =>
    by_cases hchange : ∃ τ path kind, a = .change τ path kind
    · obtain ⟨τ, path, kind, rfl⟩ := hchange
      rw [refreshTimes, ih (h.change τ path kind), settings_perform, documentReports_perform,
        documentReports_change]
      by_cases hconcerns : m.concerns path = true
      · have hreplaced := h.replaced (r := ⟨τ, path, kind⟩) none_due (m.documentReports rest)
        rw [if_pos hconcerns, if_pos hconcerns, hreplaced]
        rfl
      · rw [if_neg hconcerns, if_neg hconcerns]
        rfl
    · have hother : a.report? = none := by
        cases a with
        | change τ path kind => exact absurd ⟨τ, path, kind, rfl⟩ hchange
        | _ => rfl
      rw [refreshTimes, unasked, ih (h.other hother unasked unshut), settings_perform,
        documentReports_perform, documentReports_cons_of_none hother]
      rfl

/-! ## What is to come -/

/-- A course goes on as it has begun. -/
theorem Prompt.split {first rest : List Act} {waiting : Option Report} (h : m.WaitsFor waiting)
    (hp : Prompt limit m now asked (first ++ rest)) :
    ∃ waiting' now' asked', (m.course first).1.WaitsFor waiting' ∧
      Prompt limit (m.course first).1 now' asked' rest := by
  induction first generalizing m now asked waiting with
  | nil => exact ⟨waiting, now, asked, h, hp⟩
  | cons a first ih =>
    cases hp with
    | ring timestamp time settled hfirst after =>
      have hwaits : WaitsFor _ none := (Waits.ring h hfirst timestamp).2
      exact ih hwaits after
    | refresh after => exact ih (h.other rfl rfl (by simp)) after
    | act time settled none_due unasked unshut after =>
      cases a with
      | change τ path kind => exact ih (h.change τ path kind) after
      | _ => exact ih (h.other rfl unasked unshut) after

/-- If no document is reported any more, the refresh that waits is asked for when it is due. -/
theorem Waits.rings {due : Nat} (h : m.Waits (some due)) (hp : Prompt limit m now asked acts)
    (hdue : due ≤ limit) (quiet : m.documentReports acts = []) :
    ∃ mid timestamp number late, acts = mid ++ .ring due timestamp number :: late ∧
      (m.course mid).1.asked? (.ring due timestamp number) = some due ∧
      Prompt limit ((m.course mid).1.perform (.ring due timestamp number)).1 due true late := by
  have hskip : ∀ {n : Manager} {a : Act} {rest : List Act},
      (∃ mid timestamp number late, rest = mid ++ .ring due timestamp number :: late ∧
        ((n.perform a).1.course mid).1.asked? (.ring due timestamp number) = some due ∧
        Prompt limit (((n.perform a).1.course mid).1.perform (.ring due timestamp number)).1 due true
          late) →
      ∃ mid timestamp number late, a :: rest = mid ++ .ring due timestamp number :: late ∧
        (n.course mid).1.asked? (.ring due timestamp number) = some due ∧
        Prompt limit ((n.course mid).1.perform (.ring due timestamp number)).1 due true late := by
    rintro n a rest ⟨mid, timestamp, number, late, rfl, hasked, hafter⟩
    exact ⟨a :: mid, timestamp, number, late, rfl, hasked, hafter⟩
  induction hp with
  | done time none_due =>
    exact absurd hdue (Nat.not_le.mpr (h.lt_of_none_due none_due due rfl))
  | @ring m now asked a rest timestamp time settled first after ih =>
    obtain rfl := Option.some.inj (h.due_of_first first).1
    exact ⟨[], timestamp, a.number, rest, rfl, (h.ring first timestamp).1, after⟩
  | @refresh m now asked rest after ih =>
    refine hskip (ih (h.other rfl rfl (by simp)) ?_)
    rw [documentReports_perform, ← documentReports_cons_of_none (a := .refresh) rfl, quiet]
  | @act m now asked a rest time settled none_due unasked unshut after ih =>
    cases a with
    | change τ path kind =>
      rw [documentReports_change] at quiet
      by_cases hconcerns : m.concerns path = true
      · rw [if_pos hconcerns] at quiet
        cases quiet
      · rw [if_neg hconcerns] at quiet
        have hwaits := h.change τ path kind
        rw [if_neg hconcerns] at hwaits
        refine hskip (ih hwaits ?_)
        rw [documentReports_perform, quiet]
    | _ =>
      refine hskip (ih (h.other rfl unasked unshut) ?_)
      rw [documentReports_perform, ← quiet]
      rfl

/-- When the alarm has rung, a refresh is asked for before time goes on. -/
theorem Prompt.asks (hp : Prompt limit m now true acts) :
    ∃ mid late, acts = mid ++ .refresh :: late ∧ ∀ a ∈ mid, a.timeFrom now = now := by
  generalize htrue : true = asked at hp
  induction hp with
  | done => cases htrue
  | @ring m now asked a rest timestamp time settled first after ih =>
    obtain ⟨mid, late, rfl, hmid⟩ := ih rfl
    have hnow : a.due = now := settled htrue.symm
    refine ⟨.ring a.due timestamp a.number :: mid, late, rfl, ?_⟩
    intro x hx
    rcases List.mem_cons.mp hx with rfl | hx
    · exact hnow
    · rw [← hnow]
      exact hmid x hx
  | refresh after ih => exact ⟨[], _, rfl, fun a ha => absurd ha List.not_mem_nil⟩
  | @act m now asked a rest time settled none_due unasked unshut after ih =>
    have hnow := settled htrue.symm
    obtain ⟨mid, late, rfl, hmid⟩ := ih htrue
    refine ⟨a :: mid, late, rfl, ?_⟩
    intro x hx
    rcases List.mem_cons.mp hx with rfl | hx
    · exact hnow
    · rw [← hnow]
      have := hmid x hx
      rwa [hnow] at this ⊢

/-! ## Every sequence of reports -/

/-- Whether there is a course that makes just these reports. -/
def Reported (limit : Nat) (m : Manager) (now : Nat) (reports : List Report) : Prop :=
  ∃ acts, Prompt limit m now false acts ∧ acts.filterMap Act.report? = reports

/-- Before anything is done at a time, the alarm rings if it is due by then. -/
theorem Waits.wait {due? : Option Nat} {time : Nat} {reports : List Report} (h : m.Waits due?)
    (coming : ∀ due ∈ due?, now ≤ due) (hle : now ≤ time)
    (goal : ∀ {m : Manager} {due? : Option Nat} {now : Nat}, m.Waits due? →
      now ≤ time → m.refreshAlarm.first? time = none → Reported limit m now reports) :
    Reported limit m now reports := by
  cases hfirst : m.refreshAlarm.first? time with
  | none => exact goal h hle hfirst
  | some a =>
    obtain ⟨hdue, hsoon, hring, -⟩ := h.due_of_first hfirst
    have hrung := (h.ring hring "").2
    have hidle := hrung.other (a := .refresh) rfl rfl (by simp)
    have hnone : ((m.perform (.ring a.due "" a.number)).1.perform .refresh).1.refreshAlarm.first?
        time = none := by
      obtain ⟨-, hlive⟩ | ⟨b, hb, -⟩ := hidle.live
      · simp [Alarms.first?, hlive]
      · cases hb
    obtain ⟨acts, hp, hreports⟩ := goal hidle hsoon hnone
    exact ⟨_, .ring "" (coming a.due hdue) (by simp) hring (.refresh hp), hreports⟩

/-- Any reports in the order of time are made by a course. -/
theorem Waits.reported {due? : Option Nat} {reports : List Report} (h : m.Waits due?)
    (coming : ∀ due ∈ due?, now ≤ due) (hlimit : now ≤ limit)
    (ordered : reports.Pairwise fun r s => r.time ≤ s.time)
    (between : ∀ r ∈ reports, now ≤ r.time ∧ r.time ≤ limit) : Reported limit m now reports := by
  induction reports generalizing m due? now with
  | nil => exact h.wait coming hlimit fun _ hle hnone => ⟨[], .done hle hnone, rfl⟩
  | cons r later ih =>
    obtain ⟨hfirst, hlater⟩ := List.pairwise_cons.mp ordered
    obtain ⟨hnow, hin⟩ := between r List.mem_cons_self
    refine h.wait coming hnow fun {m due? _} h hle hnone => ?_
    have hcoming : ∀ due ∈ (if m.concerns r.path then some (r.time + m.settings.refreshDebounce)
        else due?), r.time ≤ due := by
      intro due hdue
      split at hdue
      · cases hdue
        exact Nat.le_add_right ..
      · exact Nat.le_of_lt (h.lt_of_none_due hnone due hdue)
    obtain ⟨acts, hp, hreports⟩ := ih (h.change r.time r.path r.kind) hcoming hin hlater fun s hs =>
      ⟨hfirst s hs, (between s (List.mem_cons_of_mem r hs)).2⟩
    refine ⟨.change r.time r.path r.kind :: acts, ?_, ?_⟩
    · exact .act hle (by simp) hnone rfl (by simp) hp
    · rw [List.filterMap_cons, hreports]
      rfl

end Prompt

end Manager

end Workflow
