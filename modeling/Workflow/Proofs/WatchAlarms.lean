import Workflow.Proofs.Trials
import Workflow.Proofs.Upkeep

/- The alarms of one trigger. An act that leaves the trigger registered leaves the whole
   table alone (`table_perform`), and unless it is a change or rings one of them it leaves
   the trigger's alarms alone (`alarmsOf_perform`). A change sets an alarm for the trigger
   if its watch covers it (`alarmsOf_change`). -/
namespace Workflow

/-! ## Alarms -/

namespace Alarms

variable {κ α : Type} {alarms : Alarms κ α}

/-- What the alarms are set for: their keys, their times and what they ring for, the one set first
in front. -/
def settings (alarms : Alarms κ α) : List (κ × Nat × α) :=
  alarms.live.map fun a => (a.key, a.due, a.item)

/-- Of alarms in the order of their times the one in front rings first. -/
theorem first?_eq_of_sorted (sorted : alarms.live.Pairwise fun a b => a.due ≤ b.due) (time : Nat) :
    alarms.first? time = alarms.live.head?.filter (·.due ≤ time) := by
  unfold first?
  cases hlive : alarms.live with
  | nil => rfl
  | cons a rest =>
    rw [hlive] at sorted
    have hfirst := (List.pairwise_cons.mp sorted).1
    by_cases hdue : a.due ≤ time
    · rw [List.filter_cons_of_pos (by simpa using hdue), List.foldl_cons]
      have hkept : ∀ x ∈ rest.filter (·.due ≤ time), a.due ≤ x.due := fun x hx =>
        hfirst x (List.mem_of_mem_filter hx)
      -- nothing behind it is due before it, so it stays the best so far
      generalize rest.filter (·.due ≤ time) = due at hkept
      have hhead : (a :: rest).head?.filter (·.due ≤ time) = some a := by simp [hdue]
      rw [hhead]
      induction due with
      | nil => rfl
      | cons x due ih =>
        have hx := hkept x List.mem_cons_self
        rw [List.foldl_cons]
        dsimp only
        rw [if_neg (Nat.not_lt.mpr hx)]
        exact ih fun y hy => hkept y (List.mem_cons_of_mem x hy)
    · have hnone : (a :: rest).filter (·.due ≤ time) = [] := by
        refine List.filter_eq_nil_iff.mpr fun x hx => ?_
        rcases List.mem_cons.mp hx with rfl | hx
        · simpa using hdue
        · have := hfirst x hx
          simp only [decide_eq_true_eq]
          omega
      rw [hnone]
      simp [Option.filter, hdue]

variable {suits : κ → α → Prop}

theorem Sound.find?_of_mem (h : alarms.Sound suits) {a : Alarm κ α} (ha : a ∈ alarms.live) :
    alarms.find? a.number = some a := by
  have hsome : (alarms.find? a.number).isSome = true := by
    unfold find?
    rw [List.find?_isSome]
    exact ⟨a, ha, by simp⟩
  obtain ⟨b, hb⟩ := Option.isSome_iff_exists.mp hsome
  have hnumber : b.number = a.number := by simpa using List.find?_some hb
  rw [hb, List.inj_on_of_nodup_map h.numbers (List.mem_of_find?_eq_some hb) ha hnumber]

/-- Dropping an alarm leaves those of other keys alone. -/
theorem Sound.cancel_drop (h : alarms.Sound suits) {number : Nat} {a : Alarm κ α}
    (found : alarms.find? number = some a) {keys : κ → Bool} (other : keys a.key = true) :
    ((alarms.drop number).cancel keys).live = (alarms.cancel keys).live := by
  have hmem := List.mem_of_find?_eq_some found
  have hnumber : a.number = number := by simpa using List.find?_some found
  show (alarms.live.filter _).filter _ = alarms.live.filter _
  rw [List.filter_filter]
  refine List.filter_congr fun b hb => ?_
  by_cases hb' : b.number = number
  · rw [List.inj_on_of_nodup_map h.numbers hb hmem (hb'.trans hnumber.symm), other]
    simp
  · simp [hb']

/-- When the first alarm of some keys is dropped, the others of these keys are left. -/
theorem Sound.cancel_drop_first (h : alarms.Sound suits) {keys : κ → Bool} {a : Alarm κ α}
    {others : List (Alarm κ α)} (hlive : (alarms.cancel keys).live = a :: others) :
    ((alarms.drop a.number).cancel keys).live = others := by
  have hnumbers := (h.cancel keys).numbers
  rw [hlive, List.map_cons, List.nodup_cons] at hnumbers
  show (alarms.live.filter _).filter _ = others
  rw [List.filter_comm]
  show (alarms.cancel keys).live.filter _ = others
  rw [hlive, List.filter_cons_of_neg (by simp), List.filter_eq_self]
  intro b hb
  rw [bne_iff_ne]
  exact fun heq => hnumbers.1 (heq ▸ List.mem_map_of_mem hb)

variable [DecidableEq κ]

theorem cancel_set_of_other (keys : κ → Bool) {key : κ} (other : keys key = true) (due : Nat)
    (item : α) : ((alarms.set key due item).cancel keys).live = (alarms.cancel keys).live := by
  show (alarms.live.filter _ ++ [_]).filter _ = alarms.live.filter _
  rw [List.filter_append, List.filter_filter, List.filter_cons_of_neg (by simp [other]),
    List.filter_nil, List.append_nil]
  refine List.filter_congr fun b _ => ?_
  by_cases hkey : b.key = key
  · simp [hkey, other]
  · simp [hkey]

theorem settings_cancel_set (keys : κ → Bool) {key : κ} (kept : keys key = false) (due : Nat)
    (item : α) :
    ((alarms.set key due item).cancel keys).settings =
      (alarms.cancel keys).settings.filter (·.1 != key) ++ [(key, due, item)] := by
  simp only [settings, set, cancel, List.filter_append, List.filter_filter, List.map_append,
    List.filter_map, Function.comp_def, bne]
  simp [kept, Bool.and_comm]

end Alarms

/-- Whether an alarm of a key does not belong to a trigger. -/
def AlarmKey.foreignTo (t : Nat) (key : AlarmKey) : Bool := key.trigger? != some t

theorem AlarmKey.trigger?_of_suits {key : AlarmKey} {task : AlarmTask} (h : key.Suits task) :
    key.trigger? = task.trigger? := by
  cases key <;> cases task <;>
    simp_all [AlarmKey.Suits, AlarmKey.trigger?, AlarmTask.trigger?]

namespace Manager

/-- The alarms of a trigger. -/
def alarmsOf (m : Manager) (t : Nat) : Alarms AlarmKey AlarmTask :=
  m.alarms.cancel (AlarmKey.foreignTo t)

section AlarmsOf

variable {m : Manager} {t : Nat} {live : LiveTrigger}

theorem mem_alarmsOf {a : Alarm AlarmKey AlarmTask} :
    a ∈ (m.alarmsOf t).live ↔ a ∈ m.alarms.live ∧ a.key.trigger? = some t := by
  simp [alarmsOf, Alarms.cancel, AlarmKey.foreignTo]

/-! ## Acts that leave a trigger registered -/

/-- Nothing known is registered again by a pass. -/
theorem not_mem_table_pass (hl : m.triggers[t]? = some live) (now : Nat) (tree : FileTree) :
    t ∉ (m.pass now tree).1.table := by
  unfold pass
  dsimp only
  split
  · exact List.not_mem_nil
  · rw [(synced _).frame.1]
    show t ∉ (m.clear.install now (m.clear.declared tree)).table
    rw [install_table]
    intro hmem
    have hlt : t < m.clear.triggers.length := by
      simpa [clear] using (List.getElem?_eq_some_iff.mp hl).1
    obtain ⟨d, hd, rfl⟩ := List.mem_map.mp (show t ∈ List.map _ _ from hmem)
    exact Nat.not_lt.mpr (le_of_mem_numbered m.clear _ hd) hlt

/-- A move of a refresh that leaves a known trigger registered changes neither the table nor the
alarms. -/
theorem proceedAt_of_mem (hl : m.triggers[t]? = some live) {now : Nat} {tree : FileTree}
    {bindable : Bool} {place : Nat} (ht : t ∈ (m.proceedAt now tree bindable place).table) :
    (m.proceedAt now tree bindable place).table = m.table ∧
      (m.proceedAt now tree bindable place).alarms = m.alarms := by
  unfold proceedAt at ht ⊢
  split
  · exact ⟨rfl, rfl⟩
  · rename_i p hp
    rw [hp] at ht
    cases p with
    | ready => exact absurd ht (not_mem_table_pass hl now tree)
    | stopping port => cases port <;> exact ⟨rfl, rfl⟩
    | binding port => cases bindable <;> exact ⟨rfl, rfl⟩
    | passed =>
      unfold proceed endPass
      dsimp only
      split <;> exact ⟨rfl, rfl⟩

theorem table_perform (hl : m.triggers[t]? = some live) {a : Act}
    (ht : t ∈ (m.perform a).1.table) : (m.perform a).1.table = m.table := by
  have hdaily : ∀ a : Act, a.isDaily = true → (m.perform a).1.table = m.table := by
    intro a ha
    obtain ⟨triggers, alarms, hframe⟩ := perform_frame ha m
    rw [hframe]
  cases a with
  | start | refresh =>
    show (requestRefresh _).table = m.table
    rw [requestRefresh_frame]
  | proceed now tree bindable place => exact (proceedAt_of_mem hl ht).1
  | change | ring | fire | request => exact hdaily _ rfl
  | setPort port => rfl
  | shutdown => exact absurd ht List.not_mem_nil

theorem mem_table_of_course (h : m.Wired) (hl : m.triggers[t]? = some live) {acts : List Act}
    (ht : t ∈ (m.course acts).1.table) : t ∈ m.table := by
  induction acts generalizing m live with
  | nil => exact ht
  | cons a rest ih =>
    obtain ⟨live', hl', -⟩ := noted_occur h hl (.act a)
    have hnext : t ∈ (m.perform a).1.table := ih (h.perform a) hl' ht
    rwa [table_perform hl hnext] at hnext

theorem alarmsOf_ring (h : m.Wired) {now : Nat} {timestamp : String} {number : Nat}
    (untried : t ∉ m.tries (.act (.ring now timestamp number))) :
    ((m.ring now timestamp number).1.alarmsOf t).live = (m.alarmsOf t).live := by
  have hother : ∀ {a : Alarm AlarmKey AlarmTask}, m.alarms.find? number = some a →
      a.key.foreignTo t = true := by
    intro a found
    rw [AlarmKey.foreignTo, AlarmKey.trigger?_of_suits (h.suited found).2, bne_iff_ne]
    intro hitem
    exact untried (by simp [tries, found, hitem])
  have hrung := m.rung now timestamp number
  generalize m.ring now timestamp number = out at hrung
  cases hrung with
  | absent => rfl
  | refresh found | change found | stray found => exact h.sound.cancel_drop found (hother found)
  | @tick a found i deadline interval item timer =>
    -- the tick is set again, for a trigger other than this one
    have hne : (AlarmKey.tick i).foreignTo t = true := by
      have hkey := hother found
      rwa [(h.timer_of_tick found item).1] at hkey
    show (((m.alarms.drop number).set _ _ _).cancel _).live = _
    rw [Alarms.cancel_set_of_other _ hne]
    exact h.sound.cancel_drop found (hother found)

/-- An act that leaves a known trigger registered, is no change and rings no alarm of the trigger
leaves the alarms of the trigger alone. -/
theorem alarmsOf_perform (h : m.Wired) (hl : m.triggers[t]? = some live) {a : Act}
    (other : ∀ now path kind, a ≠ .change now path kind)
    (unrung : ∀ now timestamp alarm, a = .ring now timestamp alarm → t ∉ m.tries (.act a))
    (ht : t ∈ (m.perform a).1.table) :
    ((m.perform a).1.alarmsOf t).live = (m.alarmsOf t).live := by
  cases a with
  | start | refresh =>
    show ((requestRefresh _).alarmsOf t).live = _
    rw [requestRefresh_frame]
    rfl
  | proceed now tree bindable place =>
    show ((m.proceedAt now tree bindable place).alarmsOf t).live = _
    unfold alarmsOf
    rw [(proceedAt_of_mem hl ht).2]
  | change now path kind => exact absurd rfl (other now path kind)
  | ring now timestamp alarm => exact alarmsOf_ring h (unrung now timestamp alarm rfl)
  | fire now id event =>
    show ((m.fire now id event).1.alarmsOf t).live = _
    rw [fire_frame]
    rfl
  | request now r =>
    show ((m.handle now r).1.alarmsOf t).live = _
    rw [handle_frame]
    rfl
  | setPort port => rfl
  | shutdown => exact absurd ht List.not_mem_nil

/-! ## Changes -/

/-- What the alarms of a trigger are set for after a change of a file. If a watch covers the change,
its alarm takes the place of the one of its key. -/
def changed (now t : Nat) (path : String) (kind : ChangeKind) (w? : Option WatchSpec)
    (settings : List (AlarmKey × Nat × AlarmTask)) : List (AlarmKey × Nat × AlarmTask) :=
  match w? with
  | none => settings
  | some w =>
    let key := AlarmKey.change t (Path.parts path) kind
    settings.filter (·.1 != key) ++ [(key, now + w.debounce, .change t (changeEvent path kind w))]

theorem alarmsOf_scheduleChange (m : Manager) (now : Nat) (path : String) (kind : ChangeKind) :
    ((m.scheduleChange now path kind t).alarmsOf t).settings =
      changed now t path kind (m.watchOf? path kind t) (m.alarmsOf t).settings := by
  unfold scheduleChange
  cases m.watchOf? path kind t with
  | none => rfl
  | some w =>
    exact Alarms.settings_cancel_set _ (by simp [AlarmKey.foreignTo, AlarmKey.trigger?]) _ _

theorem alarmsOf_scheduleChange_of_ne {i : Nat} (hne : i ≠ t) (m : Manager) (now : Nat)
    (path : String) (kind : ChangeKind) :
    ((m.scheduleChange now path kind i).alarmsOf t).live = (m.alarmsOf t).live := by
  unfold scheduleChange
  split
  · exact Alarms.cancel_set_of_other _ (by simpa [AlarmKey.foreignTo, AlarmKey.trigger?] using hne) _ _
  · rfl

theorem alarmsOf_scheduleChanges {ts : List Nat} (ht : t ∉ ts) (m : Manager) (now : Nat)
    (path : String) (kind : ChangeKind) :
    ((ts.foldl (fun m i => m.scheduleChange now path kind i) m).alarmsOf t).live =
      (m.alarmsOf t).live := by
  induction ts generalizing m with
  | nil => rfl
  | cons i rest ih =>
    have hi : i ≠ t := fun heq => ht (heq ▸ List.mem_cons_self)
    have hrest : t ∉ rest := fun hmem => ht (List.mem_cons_of_mem i hmem)
    rw [List.foldl_cons, ih hrest, alarmsOf_scheduleChange_of_ne hi]

/-- A change sets an alarm for a registered trigger whose watch covers it. -/
theorem alarmsOf_change (h : m.Wired) (ht : t ∈ m.table) (now : Nat) (path : String)
    (kind : ChangeKind) :
    ((m.change now path kind).alarmsOf t).settings =
      changed now t path kind (m.watchOf? path kind t) (m.alarmsOf t).settings := by
  have hlive : ∀ {x y : Manager}, (x.alarmsOf t).live = (y.alarmsOf t).live →
      (x.alarmsOf t).settings = (y.alarmsOf t).settings := fun heq => congrArg (List.map _) heq
  -- a refresh may be scheduled in front of the watches
  obtain ⟨first, hchange, hfirst, hwatch⟩ : ∃ first : Manager,
      m.change now path kind = m.table.foldl (fun m i => m.scheduleChange now path kind i) first ∧
      (first.alarmsOf t).live = (m.alarmsOf t).live ∧
      first.watchOf? path kind t = m.watchOf? path kind t := by
    unfold change
    dsimp only
    split
    · refine ⟨m.scheduleRefresh now, rfl, ?_, rfl⟩
      exact Alarms.cancel_set_of_other _ (by simp [AlarmKey.foreignTo, AlarmKey.trigger?]) _ _
    · exact ⟨m, rfl, rfl, rfl⟩
  -- the table has the trigger once
  obtain ⟨before, after, htable⟩ := List.append_of_mem ht
  have hnodup := h.nodup
  rw [htable, List.nodup_append] at hnodup
  have hbefore : t ∉ before := fun hmem => hnodup.2.2 t hmem t List.mem_cons_self rfl
  have hafter : t ∉ after := (List.nodup_cons.mp hnodup.2.1).1
  have hwatch' : (before.foldl (fun m i => m.scheduleChange now path kind i) first).watchOf? path
      kind t = m.watchOf? path kind t := by
    rw [scheduleChanges_frame, ← hwatch]
    rfl
  rw [hchange, htable, List.foldl_append, List.foldl_cons,
    hlive (alarmsOf_scheduleChanges hafter _ now path kind), alarmsOf_scheduleChange, hwatch',
    hlive (alarmsOf_scheduleChanges hbefore first now path kind), hlive hfirst]

end AlarmsOf

end Manager

end Workflow
