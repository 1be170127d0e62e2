import Mathlib.Data.List.Nodup
import Workflow.Proofs.ManagerCourse

/- What ties the parts of a manager together. The triggers in its table are the ones that
   are not disposed of; the routes lead to the webhooks among them, every timer among
   them has its tick, and the changes that are waited for belong to watches among them
   (`Wired`). The parts are updated one after the other by many acts, and each act
   leaves them agreeing (`Wired.perform`). -/
namespace Workflow

/-! ## Alarms -/

namespace Alarms

variable {κ α : Type} {suits : κ → α → Prop} {alarms : Alarms κ α}

/-- Whether no two alarms have one key or one number, and each rings for what its key stands
for. -/
structure Sound (suits : κ → α → Prop) (alarms : Alarms κ α) : Prop where
  keys : alarms.keys.Nodup
  numbers : (alarms.live.map (·.number)).Nodup
  numbered : ∀ a ∈ alarms.live, a.number < alarms.next
  suited : ∀ a ∈ alarms.live, suits a.key a.item

/-- Some of the alarms are as sound as all of them. -/
theorem Sound.filter (h : alarms.Sound suits) (kept : Alarm κ α → Bool) :
    Sound suits { alarms with live := alarms.live.filter kept } where
  keys := h.keys.sublist (List.filter_sublist.map _)
  numbers := h.numbers.sublist (List.filter_sublist.map _)
  numbered a ha := h.numbered a (List.mem_of_mem_filter ha)
  suited a ha := h.suited a (List.mem_of_mem_filter ha)

theorem Sound.cancel (h : alarms.Sound suits) (keys : κ → Bool) :
    (alarms.cancel keys).Sound suits :=
  h.filter _

theorem Sound.drop (h : alarms.Sound suits) (number : Nat) : (alarms.drop number).Sound suits :=
  h.filter _

theorem mem_keys_cancel {keys : κ → Bool} {k : κ} :
    k ∈ (alarms.cancel keys).keys ↔ k ∈ alarms.keys ∧ keys k = false := by
  simp only [cancel, Alarms.keys, List.mem_map, List.mem_filter, Bool.not_eq_true']
  constructor
  · rintro ⟨a, ⟨ha, hk⟩, rfl⟩
    exact ⟨⟨a, ha, rfl⟩, hk⟩
  · rintro ⟨⟨a, ha, rfl⟩, hk⟩
    exact ⟨a, ⟨ha, hk⟩, rfl⟩

/-- The alarm of a number is the only one that is dropped with it. -/
theorem Sound.mem_keys_drop (h : alarms.Sound suits) {number : Nat} {a : Alarm κ α}
    (ha : alarms.find? number = some a) {k : κ} :
    k ∈ (alarms.drop number).keys ↔ k ∈ alarms.keys ∧ k ≠ a.key := by
  have hmem : a ∈ alarms.live := List.mem_of_find?_eq_some ha
  have hnumber : a.number = number := by simpa using List.find?_some ha
  simp only [Alarms.drop, Alarms.keys, List.mem_map, List.mem_filter, bne_iff_ne]
  constructor
  · rintro ⟨b, ⟨hb, hne⟩, rfl⟩
    refine ⟨⟨b, hb, rfl⟩, fun hkey => hne ?_⟩
    rw [List.inj_on_of_nodup_map h.keys hb hmem hkey, hnumber]
  · rintro ⟨⟨b, hb, rfl⟩, hkey⟩
    refine ⟨b, ⟨hb, fun hsame => hkey ?_⟩, rfl⟩
    rw [List.inj_on_of_nodup_map h.numbers hb hmem (hsame.trans hnumber.symm)]

variable [DecidableEq κ]

theorem Sound.set (h : alarms.Sound suits) {key : κ} {item : α} (hs : suits key item) (due : Nat) :
    (alarms.set key due item).Sound suits := by
  have hrest := h.cancel (· == key)
  constructor
  case keys =>
    rw [keys_set]
    refine List.Nodup.append (h.keys.filter _) (List.nodup_singleton _) ?_
    simp [List.disjoint_singleton]
  case numbers =>
    unfold Alarms.set
    rw [List.map_append]
    refine List.Nodup.append hrest.numbers (List.nodup_singleton _) ?_
    -- the new number lies behind all others
    rw [List.map_singleton, List.disjoint_singleton]
    intro hmem
    obtain ⟨a, ha, hnumber⟩ := List.mem_map.mp hmem
    exact Nat.lt_irrefl _ (hnumber ▸ hrest.numbered a ha)
  case numbered =>
    intro a ha
    rcases List.mem_append.mp ha with ha | ha
    · exact Nat.lt_succ_of_lt (hrest.numbered a ha)
    · rw [List.mem_singleton] at ha
      subst ha
      exact Nat.lt_succ_self _
  case suited =>
    intro a ha
    rcases List.mem_append.mp ha with ha | ha
    · exact hrest.suited a ha
    · rw [List.mem_singleton] at ha
      subst ha
      exact hs

theorem mem_keys_set {key k : κ} {due : Nat} {item : α} :
    k ∈ (alarms.set key due item).keys ↔ k ∈ alarms.keys ∨ k = key := by
  rw [keys_set, List.mem_append, List.mem_filter, List.mem_singleton]
  by_cases hk : k = key <;> simp [hk]

end Alarms

/-- Whether an alarm of a key rings for a task of its own. -/
def AlarmKey.Suits : AlarmKey → AlarmTask → Prop
  | .tick t, .tick t' _ => t = t'
  | .change t _ _, .change t' _ => t = t'
  | .refresh, .refresh => True
  | _, _ => False

namespace AlarmKey

variable {k : AlarmKey} {t : Nat}

theorem suits_tick {deadline : Nat} : k.Suits (.tick t deadline) ↔ k = .tick t := by
  cases k <;> simp [Suits]

theorem suits_change {event : Json} :
    k.Suits (.change t event) ↔ ∃ path kind, k = .change t path kind := by
  cases k <;> simp [Suits]

theorem suits_refresh : k.Suits .refresh ↔ k = .refresh := by
  cases k <;> simp [Suits]

end AlarmKey

/-! ## Triggers -/

/-- What of a trigger its firings leave alone. -/
def LiveTrigger.standing (live : LiveTrigger) : TriggerDefinition × Bool :=
  (live.definition, live.disposed)

namespace Manager

/-- The standing of a trigger that was ever registered. -/
def standing? (m : Manager) (t : Nat) : Option (TriggerDefinition × Bool) :=
  (m.triggers[t]?).map LiveTrigger.standing

/-- The registered triggers of a kind, in the order of the table. -/
def ofKind (m : Manager) (kind : TriggerKind) : List Nat :=
  m.table.filter fun t => (m.triggers[t]?).any (·.definition.kind == kind)

/-- The registered webhooks on a path, in the order of the table. -/
def hooksOn (m : Manager) (path : String) : List Nat :=
  m.table.filter fun t => (m.hook? t).any (·.path == path)

section Standing

variable {m m' : Manager}

theorem hook?_congr {t : Nat} (h : m'.standing? t = m.standing? t) : m'.hook? t = m.hook? t := by
  unfold standing? at h
  unfold hook?
  cases hl : m.triggers[t]? <;> cases hl' : m'.triggers[t]? <;> simp_all [LiveTrigger.standing]

theorem mem_ofKind {kind : TriggerKind} {t : Nat} :
    t ∈ m.ofKind kind ↔ t ∈ m.table ∧ ∃ d b, m.standing? t = some (d, b) ∧ d.kind = kind := by
  unfold ofKind standing?
  rw [List.mem_filter]
  cases m.triggers[t]? <;> simp [LiveTrigger.standing]

theorem mem_hooksOn {path : String} {t : Nat} :
    t ∈ m.hooksOn path ↔ t ∈ m.table ∧ ∃ hook, m.hook? t = some hook ∧ hook.path = path := by
  unfold hooksOn
  rw [List.mem_filter]
  cases m.hook? t <;> simp

theorem hook?_eq_some_iff {t : Nat} {hook : WebhookSpec} :
    m.hook? t = some hook ↔ ∃ d b, m.standing? t = some (d, b) ∧ d.spec = .webhook hook := by
  unfold hook? standing?
  cases m.triggers[t]? with
  | none => simp
  | some live =>
    cases hs : live.definition.spec <;> simp [LiveTrigger.standing, hs]

theorem definition?_eq_some_iff {t : Nat} {d : TriggerDefinition} :
    m.definition? t = some d ↔ t ∈ m.table ∧ ∃ b, m.standing? t = some (d, b) := by
  unfold definition? standing?
  by_cases ht : t ∈ m.table
  · cases m.triggers[t]? <;> simp [ht, LiveTrigger.standing]
  · simp [ht]

theorem ofKind_congr (ht : m'.table = m.table) (hs : ∀ t, m'.standing? t = m.standing? t)
    (kind : TriggerKind) : ∀ t, t ∈ m'.ofKind kind ↔ t ∈ m.ofKind kind := by
  intro t
  rw [mem_ofKind, mem_ofKind, ht, hs]

theorem hooksOn_congr (ht : m'.table = m.table) (hs : ∀ t, m'.standing? t = m.standing? t)
    (path : String) : m'.hooksOn path = m.hooksOn path := by
  unfold hooksOn
  rw [ht]
  exact List.filter_congr fun t _ => by rw [hook?_congr (hs t)]

end Standing

theorem standing?_attempt (m : Manager) (now t : Nat) (event : Json) (i : Nat) :
    (m.attempt now t event).1.standing? i = m.standing? i := by
  have h := attempt_spec m now t event
  generalize m.attempt now t event = out at h
  cases h with
  | refused => rfl
  | fired hl _ _ =>
    unfold standing?
    rw [List.getElem?_set]
    by_cases hti : t = i
    · subst hti
      have hlt := (List.getElem?_eq_some_iff.mp hl).1
      rw [if_pos rfl, if_pos hlt, hl]
      rfl
    · rw [if_neg hti]

theorem standing?_fire (m : Manager) (now : Nat) (id : String) (event : Json) (i : Nat) :
    (m.fire now id event).1.standing? i = m.standing? i := by
  unfold fire
  split
  · exact standing?_attempt ..
  · rfl

theorem standing?_handle (m : Manager) (now : Nat) (r : Http.Request) (i : Nat) :
    (m.handle now r).1.standing? i = m.standing? i := by
  obtain ⟨a, ha, hm, -⟩ := m.handle_asking now r
  unfold standing?
  rw [hm]
  by_cases hf : i ∈ a.firings.map (·.trigger)
  · rw [ha.fired i hf]
    cases m.triggers[i]? <;> rfl
  · rw [ha.kept i hf]

/-! ## Agreement -/

/-- Whether the table, the routes and the alarms of a manager agree. -/
structure Wired (m : Manager) : Prop where
  nodup : m.table.Nodup
  alive : ∀ t ∈ m.table, ∃ d, m.standing? t = some (d, false)
  retired : ∀ t d, m.standing? t = some (d, false) → t ∈ m.table
  ordered : m.routes.Ordered
  occupied : ∀ path, Table.get? m.routes path ≠ some []
  routed : ∀ path, m.routed path = m.hooksOn path
  sound : m.alarms.Sound AlarmKey.Suits
  ticks : ∀ t, .tick t ∈ m.alarms.keys ↔ t ∈ m.ofKind .cron
  changes : ∀ t path kind, .change t path kind ∈ m.alarms.keys → t ∈ m.ofKind .watch

/-- A trigger in the table is not disposed of. -/
theorem Wired.undisposed {m : Manager} (h : m.Wired) {t : Nat} {live : LiveTrigger}
    (known : m.triggers[t]? = some live) (registered : t ∈ m.table) : live.disposed = false := by
  obtain ⟨d, hd⟩ := h.alive t registered
  unfold standing? at hd
  rw [known] at hd
  exact congrArg Prod.snd (Option.some.inj hd)

/-- No trigger stands on a path twice. -/
theorem Wired.routed_nodup {m : Manager} (h : m.Wired) (path : String) : (m.routed path).Nodup := by
  rw [h.routed]
  exact h.nodup.filter _

theorem wired_new (settings : TriggerSettings) : (new settings).Wired := by
  constructor <;>
    simp [new, standing?, Table.Ordered, Table.names, Table.get?, Manager.routed, hooksOn, ofKind,
      Alarms.keys]
  constructor <;> simp [Alarms.keys]

/-- Nothing but the table, the routes, the alarms and the standing of the triggers counts. -/
theorem Wired.congr {m m' : Manager} (h : m.Wired) (ht : m'.table = m.table)
    (hr : m'.routes = m.routes) (ha : m'.alarms = m.alarms)
    (hs : ∀ t, m'.standing? t = m.standing? t) : m'.Wired where
  nodup := ht ▸ h.nodup
  alive t hmem := by
    rw [hs]
    exact h.alive t (ht ▸ hmem)
  retired t d hd := by
    rw [ht]
    exact h.retired t d (hs t ▸ hd)
  ordered := hr ▸ h.ordered
  occupied := hr ▸ h.occupied
  routed path := by
    rw [hooksOn_congr ht hs, ← h.routed]
    unfold Manager.routed
    rw [hr]
  sound := ha ▸ h.sound
  ticks t := by
    rw [ha, h.ticks, ofKind_congr ht hs]
  changes t path kind hmem := by
    rw [ofKind_congr ht hs]
    exact h.changes t path kind (ha ▸ hmem)

/-- Alarms may be replaced by others under the same ticks, if the changes belong to watches. -/
theorem Wired.with_alarms {m : Manager} (h : m.Wired) {alarms : Alarms AlarmKey AlarmTask}
    (sound : alarms.Sound AlarmKey.Suits)
    (ticks : ∀ t, .tick t ∈ alarms.keys ↔ .tick t ∈ m.alarms.keys)
    (changes : ∀ t path kind, .change t path kind ∈ alarms.keys →
      .change t path kind ∈ m.alarms.keys ∨ t ∈ m.ofKind .watch) :
    Wired { m with alarms } where
  nodup := h.nodup
  alive := h.alive
  retired := h.retired
  ordered := h.ordered
  occupied := h.occupied
  routed := h.routed
  sound := sound
  ticks t := (ticks t).trans (h.ticks t)
  changes t path kind hmem := (changes t path kind hmem).elim (h.changes t path kind) id

/-! ## Daily business -/

/-- The cooldowns may change. -/
theorem Wired.rested {m m' : Manager} (h : m.Wired)
    (hframe : m' = { m with triggers := m'.triggers })
    (hs : ∀ t, m'.standing? t = m.standing? t) : m'.Wired :=
  h.congr (by rw [hframe]) (by rw [hframe]) (by rw [hframe]) hs

theorem wired_attempt {m : Manager} (h : m.Wired) (now t : Nat) (event : Json) :
    (m.attempt now t event).1.Wired :=
  h.rested (m.attempt_frame now t event) (m.standing?_attempt now t event)

theorem wired_fire {m : Manager} (h : m.Wired) (now : Nat) (id : String) (event : Json) :
    (m.fire now id event).1.Wired :=
  h.rested (m.fire_frame now id event) (m.standing?_fire now id event)

theorem wired_handle {m : Manager} (h : m.Wired) (now : Nat) (r : Http.Request) :
    (m.handle now r).1.Wired :=
  h.rested (m.handle_frame now r) (m.standing?_handle now r)

/-- An alarm that is no tick may be dropped. -/
theorem Wired.drop {m : Manager} (h : m.Wired) {number : Nat} {a : Alarm AlarmKey AlarmTask}
    (found : m.alarms.find? number = some a) (other : ∀ t, a.key ≠ .tick t) :
    Wired { m with alarms := m.alarms.drop number } := by
  refine h.with_alarms (h.sound.drop number) (fun t => ?_) fun t path kind hmem => ?_
  · rw [h.sound.mem_keys_drop found]
    simp [(other t).symm]
  · exact .inl ((h.sound.mem_keys_drop found).mp hmem).1

theorem wired_scheduleRefresh {m : Manager} (h : m.Wired) (now : Nat) :
    (m.scheduleRefresh now).Wired := by
  have hsuits : AlarmKey.Suits .refresh .refresh := trivial
  refine h.with_alarms (h.sound.set hsuits _) (fun t => ?_) fun t path kind hmem => ?_
  · simp [Alarms.mem_keys_set]
  · simpa [Alarms.mem_keys_set] using Or.inl hmem

theorem ofKind_of_watchOf? {m : Manager} {path : String} {kind : ChangeKind} {t : Nat}
    {w : WatchSpec} (h : m.watchOf? path kind t = some w) : t ∈ m.ofKind .watch := by
  unfold watchOf? at h
  split at h
  · rename_i w' hspec
    obtain ⟨d, hd, hw⟩ := Option.map_eq_some_iff.mp hspec
    obtain ⟨ht, b, hstanding⟩ := definition?_eq_some_iff.mp hd
    exact mem_ofKind.mpr ⟨ht, d, b, hstanding, by rw [TriggerDefinition.kind, hw]; rfl⟩
  · cases h

theorem wired_scheduleChange {m : Manager} (h : m.Wired) (now : Nat) (path : String)
    (kind : ChangeKind) (t : Nat) : (m.scheduleChange now path kind t).Wired := by
  unfold scheduleChange
  split
  · rename_i w hw
    have hsuits : AlarmKey.Suits (.change t (Path.parts path) kind)
        (.change t (changeEvent path kind w)) := rfl
    refine h.with_alarms (h.sound.set hsuits _) (fun i => ?_) fun i p k hmem => ?_
    · simp [Alarms.mem_keys_set]
    · rcases Alarms.mem_keys_set.mp hmem with hmem | hnew
      · exact .inl hmem
      · cases hnew
        exact .inr (ofKind_of_watchOf? hw)
  · exact h

theorem wired_change {m : Manager} (h : m.Wired) (now : Nat) (path : String) (kind : ChangeKind) :
    (m.change now path kind).Wired := by
  have hall : ∀ (ts : List Nat) (m : Manager), m.Wired →
      (ts.foldl (fun m t => m.scheduleChange now path kind t) m).Wired := by
    intro ts
    induction ts with
    | nil => exact fun _ h => h
    | cons t rest ih => exact fun m h => ih _ (wired_scheduleChange h now path kind t)
  unfold change
  dsimp only
  split
  · exact hall _ _ (wired_scheduleRefresh h now)
  · exact hall _ _ h

/-- A timer of the table is known by its interval. -/
theorem definition?_of_cron {m : Manager} {t : Nat} (h : t ∈ m.ofKind .cron) :
    ∃ interval, (m.definition? t).map TriggerDefinition.spec = some (.cron interval) := by
  obtain ⟨ht, d, b, hd, hkind⟩ := mem_ofKind.mp h
  rw [definition?_eq_some_iff.mpr ⟨ht, b, hd⟩, Option.map_some]
  unfold TriggerDefinition.kind at hkind
  cases hs : d.spec with
  | cron interval => exact ⟨interval, rfl⟩
  | watch | webhook => simp [hs, TriggerSpec.kind] at hkind

/-- An alarm is known by its key, and does what the key stands for. -/
theorem Wired.suited {m : Manager} (h : m.Wired) {number : Nat} {a : Alarm AlarmKey AlarmTask}
    (found : m.alarms.find? number = some a) : a.key ∈ m.alarms.keys ∧ a.key.Suits a.item := by
  have hmem := List.mem_of_find?_eq_some found
  exact ⟨List.mem_map_of_mem hmem, h.sound.suited a hmem⟩

/-- An alarm that rings for a tick belongs to a timer of the table. -/
theorem Wired.timer_of_tick {m : Manager} (h : m.Wired) {number : Nat}
    {a : Alarm AlarmKey AlarmTask} (found : m.alarms.find? number = some a) {t deadline : Nat}
    (item : a.item = .tick t deadline) : a.key = .tick t ∧ t ∈ m.ofKind .cron := by
  obtain ⟨hmem, hsuits⟩ := h.suited found
  rw [item, AlarmKey.suits_tick] at hsuits
  rw [hsuits] at hmem
  exact ⟨hsuits, (h.ticks t).mp hmem⟩

/-- No tick is left of a timer that is gone. -/
theorem Wired.no_stray {m : Manager} (h : m.Wired) {number : Nat} {a : Alarm AlarmKey AlarmTask}
    (found : m.alarms.find? number = some a) {t deadline : Nat} (item : a.item = .tick t deadline)
    (gone : ∀ interval, (m.definition? t).map TriggerDefinition.spec ≠ some (.cron interval)) :
    False := by
  obtain ⟨interval, hspec⟩ := definition?_of_cron (h.timer_of_tick found item).2
  exact gone interval hspec

theorem wired_ring {m : Manager} (h : m.Wired) (now : Nat) (timestamp : String) (number : Nat) :
    (m.ring now timestamp number).1.Wired := by
  have hrung := m.rung now timestamp number
  generalize m.ring now timestamp number = out at hrung
  cases hrung with
  | absent => exact h
  | refresh found item =>
    obtain ⟨-, hsuits⟩ := h.suited found
    rw [item, AlarmKey.suits_refresh] at hsuits
    exact h.drop found (by simp [hsuits])
  | @change a found t event item =>
    obtain ⟨-, hsuits⟩ := h.suited found
    rw [item, AlarmKey.suits_change] at hsuits
    obtain ⟨path, kind, hkey⟩ := hsuits
    have hattempt := wired_attempt (h.drop found (by simp [hkey])) now t event
    rw [attempt_with_alarms] at hattempt
    exact hattempt
  | @tick a found t deadline interval item timer =>
    obtain ⟨hkey, htimer⟩ := h.timer_of_tick found item
    have hmem := (h.ticks t).mpr htimer
    have halarms : (m.attempt now t (tickEvent interval timestamp)).1.alarms = m.alarms := by
      rw [attempt_frame]
    -- the tick that has rung is set again under the same key
    have hagain : AlarmKey.Suits (.tick t) (.tick t (Schedule.nextTick now deadline interval)) := rfl
    refine (wired_attempt h now t (tickEvent interval timestamp)).with_alarms
      ((h.sound.drop number).set hagain _) (fun i => ?_) fun i path kind hchange => ?_
    · rw [Alarms.mem_keys_set, h.sound.mem_keys_drop found, hkey, halarms]
      by_cases hi : i = t <;> simp [hi, hmem]
    · rw [Alarms.mem_keys_set, h.sound.mem_keys_drop found] at hchange
      rw [halarms]
      exact .inl (by simpa [hkey] using hchange)
  | stray found item gone => exact (h.no_stray found item gone).elim

/-! ## Registrations -/

theorem standing?_clear (m : Manager) (t : Nat) :
    m.clear.standing? t = (m.standing? t).map fun (d, b) => (d, b || m.table.contains t) := by
  unfold standing? clear
  rw [List.getElem?_map, List.getElem?_zipIdx]
  cases m.triggers[t]? with
  | none => rfl
  | some live =>
    by_cases ht : t ∈ m.table <;> simp [disposeOf, LiveTrigger.standing, ht]

/-- Everything is taken away together. -/
theorem wired_clear {m : Manager} (h : m.Wired) : m.clear.Wired := by
  have hkeys : ∀ k, k ∈ m.clear.alarms.keys → ∀ t, k.trigger? = some t → t ∉ m.table := by
    intro k hk t ht
    have := (Alarms.mem_keys_cancel.mp hk).2
    simpa [ht] using this
  have hfree : ∀ kind t, t ∉ m.clear.ofKind kind := by
    intro kind t ht
    have hmem := (mem_ofKind.mp ht).1
    simp [clear] at hmem
  constructor
  case nodup => exact List.nodup_nil
  case alive => exact fun t ht => absurd ht List.not_mem_nil
  case retired =>
    intro t d hd
    rw [standing?_clear, Option.map_eq_some_iff] at hd
    obtain ⟨⟨d', b⟩, hstanding, heq⟩ := hd
    obtain ⟨rfl, hb⟩ := Prod.mk.inj heq
    rw [Bool.or_eq_false_iff] at hb
    have hmem := h.retired t d' (by rw [hstanding, hb.1])
    simp [hmem] at hb
  case ordered => exact List.Pairwise.nil
  case occupied => exact fun path hpath => by cases hpath
  case routed => exact fun path => rfl
  case sound => exact h.sound.cancel fun key => key.trigger?.any m.table.contains
  case ticks =>
    intro t
    refine iff_of_false (fun hk => ?_) (hfree _ t)
    have hold := (Alarms.mem_keys_cancel.mp hk).1
    exact hkeys _ hk t rfl (mem_ofKind.mp ((h.ticks t).mp hold)).1
  case changes =>
    intro t path kind hk
    have hold := (Alarms.mem_keys_cancel.mp hk).1
    exact absurd (mem_ofKind.mp (h.changes t path kind hold)).1 (hkeys _ hk t rfl)

theorem addRoutes_ordered {routes : Table (List Nat)} (h : routes.Ordered)
    (ds : List (TriggerDefinition × Nat)) : (ds.foldl addRoute routes).Ordered := by
  induction ds generalizing routes with
  | nil => exact h
  | cons d rest ih =>
    refine ih ?_
    unfold addRoute
    split
    · exact Table.ordered_insert h _ _
    · exact h

theorem addRoutes_occupied {routes : Table (List Nat)}
    (h : ∀ path, Table.get? routes path ≠ some []) (ds : List (TriggerDefinition × Nat)) :
    ∀ path, Table.get? (ds.foldl addRoute routes) path ≠ some [] := by
  induction ds generalizing routes with
  | nil => exact h
  | cons d rest ih =>
    refine ih fun path => ?_
    unfold addRoute
    split
    · rw [Table.get?_insert]
      split
      · simp
      · exact h path
    · exact h path

theorem startTimer_of_cron (now : Nat) (m : Manager) {d : TriggerDefinition × Nat}
    (h : d.1.kind = .cron) :
    ∃ deadline, startTimer now m d = m.setTick d.2 deadline := by
  unfold startTimer TriggerDefinition.kind at *
  cases hs : d.1.spec with
  | cron interval => exact ⟨_, rfl⟩
  | watch | webhook => simp [hs, TriggerSpec.kind] at h

theorem startTimer_of_other (now : Nat) (m : Manager) {d : TriggerDefinition × Nat}
    (h : d.1.kind ≠ .cron) : startTimer now m d = m := by
  unfold startTimer TriggerDefinition.kind at *
  cases hs : d.1.spec with
  | cron interval => simp [hs, TriggerSpec.kind] at h
  | watch | webhook => rfl

theorem sound_startTimers {m : Manager} (h : m.alarms.Sound AlarmKey.Suits) (now : Nat)
    (ds : List (TriggerDefinition × Nat)) :
    (ds.foldl (startTimer now) m).alarms.Sound AlarmKey.Suits := by
  induction ds generalizing m with
  | nil => exact h
  | cons d rest ih =>
    refine ih ?_
    by_cases hcron : d.1.kind = .cron
    · obtain ⟨deadline, hset⟩ := startTimer_of_cron now m hcron
      have hsuits : AlarmKey.Suits (.tick d.2) (.tick d.2 deadline) := rfl
      rw [hset]
      exact h.set hsuits _
    · rw [startTimer_of_other now m hcron]
      exact h

/-- Every new timer gets its tick, and nothing else an alarm. -/
theorem mem_keys_startTimers (m : Manager) (now : Nat) (ds : List (TriggerDefinition × Nat))
    (k : AlarmKey) :
    k ∈ (ds.foldl (startTimer now) m).alarms.keys ↔
      k ∈ m.alarms.keys ∨ ∃ d ∈ ds, d.1.kind = .cron ∧ k = .tick d.2 := by
  induction ds generalizing m with
  | nil => simp
  | cons d rest ih =>
    rw [List.foldl_cons, ih]
    by_cases hcron : d.1.kind = .cron
    · obtain ⟨deadline, hset⟩ := startTimer_of_cron now m hcron
      have hkeys : k ∈ (m.setTick d.2 deadline).alarms.keys ↔
          k ∈ m.alarms.keys ∨ k = .tick d.2 := Alarms.mem_keys_set
      rw [hset, hkeys]
      simp [hcron, or_assoc]
    · rw [startTimer_of_other now m hcron]
      simp [hcron]

section Install

variable (m : Manager) (now : Nat) (found : List TriggerDefinition)

theorem install_table :
    (m.install now found).table = m.table ++ (found.zipIdx m.triggers.length).map (·.2) := by
  unfold install
  rw [startTimers_frame]

theorem install_triggers :
    (m.install now found).triggers = m.triggers ++ found.map .ofDefinition := by
  unfold install
  rw [startTimers_frame]

theorem install_routes :
    (m.install now found).routes = (found.zipIdx m.triggers.length).foldl addRoute m.routes := by
  unfold install
  rw [startTimers_frame]

theorem standing?_install_old {t : Nat} (h : t < m.triggers.length) :
    (m.install now found).standing? t = m.standing? t := by
  unfold standing?
  rw [install_triggers, List.getElem?_append_left h]

theorem standing?_install_new {t : Nat} (h : m.triggers.length ≤ t) (d : TriggerDefinition)
    (b : Bool) :
    (m.install now found).standing? t = some (d, b) ↔
      (d, t) ∈ found.zipIdx m.triggers.length ∧ b = false := by
  have hplace : (d, t) ∈ found.zipIdx m.triggers.length ↔
      found[t - m.triggers.length]? = some d := by
    simp [List.mk_mem_zipIdx_iff_le_and_getElem?_sub, h]
  unfold standing?
  rw [install_triggers, List.getElem?_append_right h, List.getElem?_map, hplace]
  cases found[t - m.triggers.length]? with
  | none => simp
  | some e => simp [LiveTrigger.standing, LiveTrigger.ofDefinition, eq_comm]

/-- New triggers have the numbers behind those of all triggers so far. -/
theorem le_of_mem_numbered {d : TriggerDefinition} {t : Nat}
    (h : (d, t) ∈ found.zipIdx m.triggers.length) : m.triggers.length ≤ t :=
  (List.mk_mem_zipIdx_iff_le_and_getElem?_sub.mp h).1

theorem lt_of_standing? {m : Manager} {t : Nat} {e : TriggerDefinition × Bool}
    (h : m.standing? t = some e) : t < m.triggers.length := by
  obtain ⟨live, hl, -⟩ := Option.map_eq_some_iff.mp h
  exact (List.getElem?_eq_some_iff.mp hl).1

variable {m}

theorem Wired.lt_of_mem (h : m.Wired) {t : Nat} (ht : t ∈ m.table) : t < m.triggers.length := by
  obtain ⟨d, hd⟩ := h.alive t ht
  exact lt_of_standing? hd

theorem Wired.mem_ofKind_install (h : m.Wired) {kind : TriggerKind} {t : Nat} :
    t ∈ (m.install now found).ofKind kind ↔
      t ∈ m.ofKind kind ∨ ∃ d ∈ found.zipIdx m.triggers.length, d.1.kind = kind ∧ t = d.2 := by
  rw [mem_ofKind, mem_ofKind, install_table, List.mem_append]
  by_cases hlt : t < m.triggers.length
  · have hold : ∀ d ∈ found.zipIdx m.triggers.length, t ≠ d.2 := by
      rintro d hd rfl
      exact Nat.not_lt.mpr (le_of_mem_numbered m found hd) hlt
    have hnone : t ∉ (found.zipIdx m.triggers.length).map (·.2) := by
      intro hmem
      obtain ⟨d, hd, ht⟩ := List.mem_map.mp hmem
      exact hold d hd ht.symm
    rw [standing?_install_old m now found hlt]
    constructor
    · rintro ⟨hmem | hmem, hd⟩
      · exact .inl ⟨hmem, hd⟩
      · exact absurd hmem hnone
    · rintro (⟨hmem, hd⟩ | ⟨d, hd, -, ht⟩)
      · exact ⟨.inl hmem, hd⟩
      · exact absurd ht (hold d hd)
  · have hle := Nat.le_of_not_lt hlt
    simp only [standing?_install_new m now found hle]
    constructor
    · rintro ⟨-, d, b, ⟨hd, -⟩, hkind⟩
      exact .inr ⟨(d, t), hd, hkind, rfl⟩
    · rintro (⟨hmem, -⟩ | ⟨⟨d, t'⟩, hd, hkind, rfl⟩)
      · exact absurd (h.lt_of_mem hmem) hlt
      · exact ⟨.inr (List.mem_map_of_mem hd), d, false, ⟨hd, rfl⟩, hkind⟩

theorem any_hook?_path {d : TriggerDefinition × Nat} {b : Bool}
    (h : m.standing? d.2 = some (d.1, b)) (path : String) :
    (m.hook? d.2).any (·.path == path) = onPath path d := by
  obtain ⟨live, hl, heq⟩ := Option.map_eq_some_iff.mp h
  have hdefinition : live.definition = d.1 := congrArg Prod.fst heq
  unfold hook? onPath
  rw [hl]
  dsimp only
  rw [hdefinition]
  cases d.1.spec <;> rfl

theorem Wired.hooksOn_install (h : m.Wired) (path : String) :
    (m.install now found).hooksOn path =
      m.hooksOn path ++ ((found.zipIdx m.triggers.length).filter (onPath path)).map (·.2) := by
  have hold : m.table.filter (fun t => ((m.install now found).hook? t).any (·.path == path)) =
      m.hooksOn path :=
    List.filter_congr fun t ht => by
      rw [hook?_congr (standing?_install_old m now found (h.lt_of_mem ht))]
  have hnew : ∀ d ∈ found.zipIdx m.triggers.length,
      ((m.install now found).hook? d.2).any (·.path == path) = onPath path d := by
    intro d hd
    have hle := le_of_mem_numbered m found hd
    exact any_hook?_path ((standing?_install_new m now found hle d.1 false).mpr ⟨hd, rfl⟩) path
  unfold hooksOn at *
  rw [install_table, List.filter_append, hold, List.filter_map]
  congr 2
  exact List.filter_congr hnew

/-- What is registered comes with its routes and its ticks. -/
theorem wired_install (h : m.Wired) : (m.install now found).Wired := by
  have hnumbers : (found.zipIdx m.triggers.length).map (·.2) =
      List.range' m.triggers.length found.length := List.zipIdx_map_snd ..
  have hkeys : ∀ k, k ∈ (m.install now found).alarms.keys ↔ k ∈ m.alarms.keys ∨
      ∃ d ∈ found.zipIdx m.triggers.length, d.1.kind = .cron ∧ k = .tick d.2 :=
    mem_keys_startTimers _ _ _
  constructor
  case nodup =>
    rw [install_table, hnumbers]
    refine h.nodup.append (List.nodup_range' ..) fun t hold hnew => ?_
    have := (List.mem_range'_1.mp hnew).1
    exact Nat.not_lt.mpr this (h.lt_of_mem hold)
  case alive =>
    intro t ht
    rw [install_table] at ht
    rcases List.mem_append.mp ht with ht | ht
    · rw [standing?_install_old m now found (h.lt_of_mem ht)]
      exact h.alive t ht
    · obtain ⟨⟨d, t'⟩, hd, rfl⟩ := List.mem_map.mp ht
      have hle := le_of_mem_numbered m found hd
      exact ⟨d, (standing?_install_new m now found hle d false).mpr ⟨hd, rfl⟩⟩
  case retired =>
    intro t d hd
    rw [install_table]
    by_cases hlt : t < m.triggers.length
    · rw [standing?_install_old m now found hlt] at hd
      exact List.mem_append_left _ (h.retired t d hd)
    · have hle := Nat.le_of_not_lt hlt
      have hmem := ((standing?_install_new m now found hle d false).mp hd).1
      exact List.mem_append_right _ (List.mem_map_of_mem hmem)
  case ordered =>
    rw [install_routes]
    exact addRoutes_ordered h.ordered _
  case occupied =>
    rw [install_routes]
    exact addRoutes_occupied h.occupied _
  case routed =>
    intro path
    rw [install_routed, h.routed, h.hooksOn_install]
  case sound =>
    unfold install
    refine sound_startTimers ?_ _ _
    exact h.sound
  case ticks =>
    intro t
    rw [hkeys, h.ticks, h.mem_ofKind_install]
    simp
  case changes =>
    intro t path kind hmem
    rcases (hkeys _).mp hmem with hmem | ⟨d, -, -, hkey⟩
    · exact (h.mem_ofKind_install now found).mpr (.inl (h.changes t path kind hmem))
    · cases hkey

end Install

/-! ## Acts -/

theorem Wired.synced {m : Manager} (h : m.Wired) : m.syncListener.1.Wired := by
  rw [(Manager.synced m).frame.1]
  exact h.congr rfl rfl rfl fun _ => rfl

theorem wired_pass {m : Manager} (h : m.Wired) (now : Nat) (tree : FileTree) :
    (m.pass now tree).1.Wired := by
  have hclear := wired_clear h
  unfold pass
  dsimp only
  split
  · exact hclear
  · exact (wired_install now _ hclear).synced

theorem wired_proceed {m : Manager} (h : m.Wired) (now : Nat) (tree : FileTree) (bindable : Bool)
    (p : RefreshPass) : (m.proceed now tree bindable p).1.Wired := by
  cases p with
  | ready => exact wired_pass h now tree
  | stopping port => cases port <;> exact h
  | binding port =>
    cases bindable with
    | false => exact h
    | true => exact h.congr rfl rfl rfl fun _ => rfl
  | passed =>
    unfold proceed endPass
    dsimp only
    split <;> exact h.congr rfl rfl rfl fun _ => rfl

theorem wired_proceedAt {m : Manager} (h : m.Wired) (now : Nat) (tree : FileTree) (bindable : Bool)
    (place : Nat) : (m.proceedAt now tree bindable place).Wired := by
  unfold proceedAt
  split
  · exact h
  · exact (wired_proceed h now tree bindable _).congr rfl rfl rfl fun _ => rfl

theorem wired_requestRefresh {m : Manager} (h : m.Wired) : m.requestRefresh.Wired := by
  unfold requestRefresh
  split <;> exact h.congr rfl rfl rfl fun _ => rfl

theorem wired_shutdown {m : Manager} (h : m.Wired) : m.shutdown.Wired := by
  have hcancel : Wired { m with alarms := m.alarms.cancel (· == AlarmKey.refresh) } := by
    refine h.with_alarms (h.sound.cancel _) (fun t => ?_) fun t path kind hmem => ?_
    · simp [Alarms.mem_keys_cancel]
    · exact .inl (Alarms.mem_keys_cancel.mp hmem).1
  have hstopped : Wired { m with
      stopped := true
      alarms := m.alarms.cancel (· == AlarmKey.refresh) } :=
    hcancel.congr rfl rfl rfl fun _ => rfl
  exact (wired_clear hstopped).congr rfl rfl rfl fun _ => rfl

/-- Whatever is done to a manager, its parts go on to agree. -/
theorem Wired.perform {m : Manager} (h : m.Wired) (a : Act) : (m.perform a).1.Wired := by
  cases a with
  | start => exact wired_requestRefresh (h.congr rfl rfl rfl fun _ => rfl)
  | refresh => exact wired_requestRefresh h
  | proceed now tree bindable place => exact wired_proceedAt h now tree bindable place
  | change now path kind => exact wired_change h now path kind
  | ring now timestamp alarm => exact wired_ring h now timestamp alarm
  | fire now id event => exact wired_fire h now id event
  | request now r => exact wired_handle h now r
  | setPort port => exact h.congr rfl rfl rfl fun _ => rfl
  | shutdown => exact wired_shutdown h

theorem wired_course {m : Manager} (h : m.Wired) (acts : List Act) : (m.course acts).1.Wired :=
  course_invariant Wired (fun _ a h => h.perform a) h acts

end Manager

end Workflow
