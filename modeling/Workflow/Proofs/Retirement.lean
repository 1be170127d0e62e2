import Workflow.Proofs.WatchAlarms

/- Triggers that are registered no longer. A firing is scheduled long before it is
   made, and there are four ways to it; whichever it takes, it is made on behalf of a
   trigger that is in the table at that moment (`backed_occur`). A trigger that has left
   the table never comes back to it (`mem_table_of_occur`), so what still refers to it
   makes no run start (`retired_occurAll`), and no alarm is left for it. A manager that
   has been shut down keeps its table empty until it is started again (`shut_occur`).
   `firesRegistered_of_history` puts this together for every history of a manager. -/
namespace Workflow.Manager

section Retirement

variable {m : Manager} {t : Nat} {live : LiveTrigger} {f : Firing}

/-! ## Firings -/

/-- Whether a firing is made on behalf of a trigger in the table, with its definition, that is not
disposed of. -/
structure Backs (m : Manager) (f : Firing) : Prop where
  registered : f.trigger ∈ m.table
  standing : m.standing? f.trigger = some (f.definition, false)

theorem Wired.backs (h : m.Wired) (hf : m.standing? f.trigger = some (f.definition, false)) :
    m.Backs f :=
  ⟨h.retired _ _ hf, hf⟩

theorem standing?_of_attempt {now i : Nat} {event : Json}
    (hf : f ∈ (m.attempt now i event).2.toList) :
    m.standing? f.trigger = some (f.definition, false) := by
  have h := attempt_spec m now i event
  generalize m.attempt now i event = out at h hf
  cases h with
  | fired known alive cooled =>
    obtain rfl := List.mem_singleton.mp hf
    simp [standing?, known, LiveTrigger.standing, alive]
  | refused why => cases hf

theorem standing?_of_asking {now : Nat} {r : Http.Request} {asked : List Nat} {a : Asked}
    (h : Asking m now r asked a) (hf : f ∈ a.firings) :
    m.standing? f.trigger = some (f.definition, false) := by
  obtain ⟨-, old, hold, hdefinition⟩ := h.firings f hf
  -- a trigger that is asked fires only if it lets the request in, so it is not disposed of
  obtain ⟨-, ⟨live, hook, hl, alive, -⟩, -⟩ := (h.mem_iff f.trigger).mp (List.mem_map_of_mem hf)
  obtain rfl := Option.some.inj (hl.symm.trans hold)
  simp [standing?, hl, LiveTrigger.standing, alive, hdefinition]

/-- Whatever occurs, what fires is registered. -/
theorem backed_occur (h : m.Wired) (o : Occurrence) (hf : f ∈ (m.occur o).2) : m.Backs f := by
  refine h.backs ?_
  have hstirring := stirring h o
  generalize m.occur o = out at hstirring hf
  cases hstirring with
  | rest untried triggers silent | renewal found untried triggers silent =>
    rw [silent] at hf
    cases hf
  | attempt tried time triggers firings =>
    rw [firings] at hf
    exact standing?_of_attempt hf
  | request asking => exact standing?_of_asking asking hf

/-- The table is one and the same while triggers fire. -/
theorem table_of_firing {o : Occurrence} (hf : f ∈ (m.occur o).2) :
    (m.occur o).1.table = m.table := by
  cases o with
  | late now i event =>
    show (m.attempt now i event).1.table = m.table
    rw [attempt_frame]
  | act a =>
    by_cases hdaily : a.isDaily = true
    · obtain ⟨triggers, alarms, hframe⟩ := perform_frame hdaily m
      show (m.perform a).1.table = m.table
      rw [hframe]
    · cases a <;> first | exact absurd rfl hdaily | cases hf

/-! ## Triggers that have left the table -/

theorem mem_table_of_occur (hl : m.triggers[t]? = some live) {o : Occurrence}
    (ht : t ∈ (m.occur o).1.table) : t ∈ m.table := by
  cases o with
  | late now i event =>
    have hframe : (m.occur (.late now i event)).1.table = m.table := by
      show (m.attempt now i event).1.table = m.table
      rw [attempt_frame]
    rwa [hframe] at ht
  | act a =>
    have hkept : (m.occur (.act a)).1.table = m.table := table_perform hl ht
    rwa [hkept] at ht

/-- No alarm is set for a trigger that is not registered. -/
theorem Wired.alarmsOf_eq_nil (h : m.Wired) (ht : t ∉ m.table) : (m.alarmsOf t).live = [] := by
  refine List.eq_nil_iff_forall_not_mem.mpr fun a ha => ht ?_
  obtain ⟨hmem, htrigger⟩ := mem_alarmsOf.mp ha
  have hkey : a.key ∈ m.alarms.keys := List.mem_map_of_mem hmem
  cases hk : a.key with
  | tick i =>
    obtain rfl : i = t := by simpa [hk, AlarmKey.trigger?] using htrigger
    exact (mem_ofKind.mp ((h.ticks i).mp (hk ▸ hkey))).1
  | change i path kind =>
    obtain rfl : i = t := by simpa [hk, AlarmKey.trigger?] using htrigger
    exact (mem_ofKind.mp (h.changes i path kind (hk ▸ hkey))).1
  | refresh => simp [hk, AlarmKey.trigger?] at htrigger

/-- What is true of a trigger for good: it is not registered, nothing is set for it, and it does not
fire. -/
structure Silent (t : Nat) (out : Manager × List Firing) : Prop where
  absent : t ∉ out.1.table
  forgotten : (out.1.alarmsOf t).live = []
  still : ∀ f ∈ out.2, f.trigger ≠ t

/-- A known trigger that is not registered stays silent, whatever still refers to it. -/
theorem retired_occurAll (h : m.Wired) (hl : m.triggers[t]? = some live) (ht : t ∉ m.table)
    (os : List Occurrence) : Silent t (m.occurAll os) := by
  induction os generalizing m live with
  | nil => exact ⟨ht, h.alarmsOf_eq_nil ht, fun f hf => by cases hf⟩
  | cons o rest ih =>
    obtain ⟨live', hl', -⟩ := noted_occur h hl o
    have hrest := ih (h.occur o) hl' fun hmem => ht (mem_table_of_occur hl hmem)
    refine ⟨hrest.absent, hrest.forgotten, fun f hf => ?_⟩
    rcases List.mem_append.mp hf with hf | hf
    · rintro rfl
      exact ht (backed_occur h o hf).registered
    · exact hrest.still f hf

/-- A move in front of a pass takes every trigger out of the table that was registered before. -/
theorem not_mem_table_proceedAt (hl : m.triggers[t]? = some live) {place : Nat}
    (hready : m.passes[place]? = some .ready) (now : Nat) (tree : FileTree) (bindable : Bool) :
    t ∉ (m.proceedAt now tree bindable place).table := by
  unfold proceedAt
  rw [hready]
  exact not_mem_table_pass hl now tree

/-! ## Managers that have been shut down -/

/-- Whether a manager has been shut down and not been started since. -/
structure Shut (m : Manager) : Prop where
  stopped : m.stopped = true
  empty : m.table = []

theorem shut_pass (h : m.Shut) (now : Nat) (tree : FileTree) : (m.pass now tree).1.Shut := by
  have hstopped : m.clear.stopped = true := h.stopped
  unfold pass
  dsimp only
  rw [if_pos hstopped]
  exact ⟨hstopped, rfl⟩

theorem shut_proceedAt (h : m.Shut) (now : Nat) (tree : FileTree) (bindable : Bool) (place : Nat) :
    (m.proceedAt now tree bindable place).Shut := by
  unfold proceedAt
  split
  · exact h
  · rename_i p _
    cases p with
    | ready => exact ⟨(shut_pass h now tree).stopped, (shut_pass h now tree).empty⟩
    | stopping port => cases port <;> exact ⟨h.stopped, h.empty⟩
    | binding port => cases bindable <;> exact ⟨h.stopped, h.empty⟩
    | passed =>
      unfold proceed endPass
      dsimp only
      split <;> exact ⟨h.stopped, h.empty⟩

/-- Only a start ends it. -/
theorem shut_occur (h : m.Shut) {o : Occurrence} (ho : o ≠ .act .start) : (m.occur o).1.Shut := by
  cases o with
  | late now i event =>
    show (m.attempt now i event).1.Shut
    rw [attempt_frame]
    exact ⟨h.stopped, h.empty⟩
  | act a =>
    have hdaily : a.isDaily = true → (m.perform a).1.Shut := by
      intro hdaily
      obtain ⟨triggers, alarms, hframe⟩ := perform_frame hdaily m
      rw [hframe]
      exact ⟨h.stopped, h.empty⟩
    cases a with
    | start => exact absurd rfl ho
    | refresh =>
      show m.requestRefresh.Shut
      rw [requestRefresh_frame]
      exact ⟨h.stopped, h.empty⟩
    | proceed now tree bindable place => exact shut_proceedAt h now tree bindable place
    | change | ring | fire | request => exact hdaily rfl
    | setPort port => exact ⟨h.stopped, h.empty⟩
    | shutdown => exact ⟨rfl, rfl⟩

theorem silent_of_shut (hw : m.Wired) (h : m.Shut) {os : List Occurrence}
    (ho : ∀ o ∈ os, o ≠ .act .start) : (m.occurAll os).2 = [] := by
  induction os generalizing m with
  | nil => rfl
  | cons o rest ih =>
    obtain ⟨hfirst, hrest⟩ := List.forall_mem_cons.mp ho
    have hnone : (m.occur o).2 = [] := by
      refine List.eq_nil_iff_forall_not_mem.mpr fun f hf => ?_
      have hregistered := (backed_occur hw o hf).registered
      rw [h.empty] at hregistered
      cases hregistered
    show (m.occur o).2 ++ ((m.occur o).1.occurAll rest).2 = []
    rw [hnone, ih (hw.occur o) (shut_occur h hfirst) hrest, List.nil_append]

/-! ## Histories -/

/-- What a manager fires for. -/
structure FiresRegistered (m : Manager) : Prop where
  /-- Whatever occurs, each firing is made for a trigger in the table, which stays as it is. -/
  backed : ∀ o, ∀ f ∈ (m.occur o).2, m.Backs f ∧ (m.occur o).1.table = m.table
  /-- After a pass of a refresh the triggers that were registered before it are silent. -/
  replaced : ∀ t ∈ m.table, ∀ now tree bindable place, m.passes[place]? = some .ready →
    ∀ later, Silent t ((m.proceedAt now tree bindable place).occurAll later)
  /-- After a shutdown nothing fires until a start. -/
  closed : ∀ later, (∀ o ∈ later, o ≠ .act .start) → (m.shutdown.occurAll later).2 = []

theorem Wired.firesRegistered (h : m.Wired) : m.FiresRegistered := by
  constructor
  case backed => exact fun o f hf => ⟨backed_occur h o hf, table_of_firing hf⟩
  case replaced =>
    intro t ht now tree bindable place hready later
    obtain ⟨d, hd⟩ := h.alive t ht
    obtain ⟨live, hl, -⟩ := Option.map_eq_some_iff.mp hd
    obtain ⟨live', hl', -⟩ := noted_occur h hl (.act (.proceed now tree bindable place))
    have hgone := not_mem_table_proceedAt hl hready now tree bindable
    exact retired_occurAll (wired_proceedAt h now tree bindable place) hl' hgone later
  case closed =>
    intro later hlater
    exact silent_of_shut (wired_shutdown h) ⟨rfl, rfl⟩ hlater

end Retirement

/-- Whatever has occurred around a manager, only triggers that are registered at that moment fire:
none that a refresh has replaced, and none at all between a shutdown and the next start. -/
theorem firesRegistered_of_history (settings : TriggerSettings) (os : List Occurrence) :
    ((new settings).occurAll os).1.FiresRegistered :=
  ((wired_new settings).occurAll os).firesRegistered

end Workflow.Manager
