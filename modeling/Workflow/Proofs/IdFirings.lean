import Workflow.Proofs.FreshListings
import Workflow.Proofs.TriggerIds

/- Triggers fired by their ids. The first trigger listed under an id is the one that fires
   (`Wired.fires_first`), so that a trigger behind another one of its id cannot be fired by it.
   What a pass brings about and other acts leave alone holds when a refresh is over
   (`Established.refreshed`): which triggers have one id (`established_clashes`), and that the
   first firing of each is not refused (`established_unused`). `ids_of_refresh` puts it together. -/
namespace Workflow

theorem LiveTrigger.accepts_ofDefinition (d : TriggerDefinition) (now : Nat) :
    (ofDefinition d).cooldown.accepts now = true := rfl

namespace Manager

variable {m : Manager} {id : String} {k : Nat} {d : TriggerDefinition}

/-! ## Firing by an id -/

/-- The ids as they are listed. -/
def ids (m : Manager) : List String := m.list.map (·.id)

theorem ids_eq (m : Manager) : m.ids = m.definitions.map (·.id) := by
  unfold ids list
  rw [List.map_map]
  rfl

/-- Whether a trigger stands at a place of the listing and is the first one with an id. -/
structure FirstUnder (m : Manager) (id : String) (k : Nat) (d : TriggerDefinition) : Prop where
  listed : m.definitions[k]? = some d
  id_eq : d.id = id
  before : ∀ j < k, ∀ e, m.definitions[j]? = some e → e.id ≠ id

/-- Whether an id fires the trigger at a place of the listing and no other one: unless that trigger
is cooling down it fires, and its cooldown is all that changes. -/
def Fires (m : Manager) (id : String) (k : Nat) (d : TriggerDefinition) : Prop :=
  ∃ t live, m.table[k]? = some t ∧ m.triggers[t]? = some live ∧ live.definition = d ∧
    ∀ now event, m.fire now id event =
      if live.cooldown.accepts now then
        ({ m with triggers := m.triggers.set t (live.rested now) }, some ⟨t, d, event⟩)
      else (m, none)

theorem exists_firstUnder (h : id ∈ m.ids) : ∃ k d, m.FirstUnder id k d := by
  rw [ids_eq] at h
  obtain ⟨d, hd, hid⟩ := List.mem_map.mp h
  have hsome : (m.definitions.findIdx? (·.id == id)).isSome := by
    rw [List.findIdx?_isSome]
    simpa using ⟨d, hd, hid⟩
  obtain ⟨k, hk⟩ := Option.isSome_iff_exists.mp hsome
  obtain ⟨hlt, hfound, hbefore⟩ := List.findIdx?_eq_some_iff_getElem.mp hk
  refine ⟨k, m.definitions[k], List.getElem?_eq_getElem hlt, by simpa using hfound, ?_⟩
  intro j hj e he
  obtain ⟨hlt', rfl⟩ := List.getElem?_eq_some_iff.mp he
  simpa using hbefore j hj

theorem map_some_filterMap {α β : Type} {f : α → Option β} {xs : List α}
    (h : ∀ x ∈ xs, ∃ y, f x = some y) : (xs.filterMap f).map some = xs.map f := by
  induction xs with
  | nil => rfl
  | cons x xs ih =>
    obtain ⟨⟨y, hy⟩, hrest⟩ := List.forall_mem_cons.mp h
    rw [List.filterMap_cons_some hy, List.map_cons, List.map_cons, ih hrest, hy]

/-- Each place of the listing is that of a registered trigger. -/
theorem Wired.place (h : m.Wired) (k : Nat) :
    (m.definitions[k]?).map some = (m.table[k]?).map fun t => (m.triggers[t]?).map (·.definition) := by
  have hlisted := map_some_filterMap (f := fun t => (m.triggers[t]?).map LiveTrigger.definition)
    fun t ht => by
      obtain ⟨d, hd⟩ := h.alive t ht
      obtain ⟨live, hl, -⟩ := Option.map_eq_some_iff.mp hd
      exact ⟨live.definition, by rw [hl]; rfl⟩
  rw [← List.getElem?_map, ← List.getElem?_map, ← hlisted]
  rfl

theorem Wired.trigger_at (h : m.Wired) (hk : m.definitions[k]? = some d) :
    ∃ t live, m.table[k]? = some t ∧ m.triggers[t]? = some live ∧ live.disposed = false ∧
      live.definition = d := by
  have hplace := h.place k
  rw [hk] at hplace
  obtain ⟨t, ht, hdefinition⟩ := Option.map_eq_some_iff.mp hplace.symm
  obtain ⟨live, hl, hd⟩ := Option.map_eq_some_iff.mp hdefinition
  obtain ⟨e, he⟩ := h.alive t (List.mem_of_getElem? ht)
  obtain ⟨live', hl', hstanding⟩ := Option.map_eq_some_iff.mp he
  obtain rfl := Option.some.inj (hl.symm.trans hl')
  exact ⟨t, live, ht, hl, congrArg Prod.snd hstanding, hd⟩

/-- The first trigger listed under an id is the one that fires. -/
theorem Wired.fires_first (h : m.Wired) (hfirst : m.FirstUnder id k d) : m.Fires id k d := by
  obtain ⟨t, live, ht, hl, halive, hd⟩ := h.trigger_at hfirst.listed
  obtain ⟨hlt, htable⟩ := List.getElem?_eq_some_iff.mp ht
  refine ⟨t, live, ht, hl, hd, fun now event => ?_⟩
  have hfind : (m.table.find? fun t => ((m.triggers[t]?).map (·.definition.id)) == some id) =
      some t := by
    rw [List.find?_eq_some_iff_getElem]
    refine ⟨by simp [hl, hd, hfirst.id_eq], k, hlt, htable, fun j hj => ?_⟩
    have hplace := h.place j
    rw [List.getElem?_eq_getElem (Nat.lt_trans hj hlt), Option.map_some] at hplace
    obtain ⟨e, he, hdefinition⟩ := Option.map_eq_some_iff.mp hplace
    obtain ⟨live', hl', rfl⟩ := Option.map_eq_some_iff.mp hdefinition.symm
    simpa [hl'] using hfirst.before j hj _ he
  unfold fire
  rw [hfind]
  dsimp only
  have hattempt := attempt_spec m now t event
  generalize m.attempt now t event = out at hattempt
  cases hattempt with
  | fired known _ cooled =>
    obtain rfl := Option.some.inj (known.symm.trans hl)
    rw [if_pos cooled, hd]
  | refused why => rw [if_neg (by simp [why live hl halive])]

theorem fire_unlisted (h : id ∉ m.ids) (now : Nat) (event : Json) :
    m.fire now id event = (m, none) := by
  have hfind : (m.table.find? fun t => ((m.triggers[t]?).map (·.definition.id)) == some id) =
      none := by
    rw [List.find?_eq_none]
    intro t ht hid
    obtain ⟨live, hl, hlive⟩ := Option.map_eq_some_iff.mp (beq_iff_eq.mp hid)
    refine h ?_
    rw [ids_eq, ← hlive]
    refine List.mem_map_of_mem (f := TriggerDefinition.id) ?_
    exact List.mem_filterMap.mpr ⟨t, ht, by rw [hl]; rfl⟩
  unfold fire
  rw [hfind]

/-- What the ids of a listing are good for. -/
structure Identified (m : Manager) : Prop where
  /-- Two triggers have one id if they clash, and only then. -/
  shared : m.definitions.Pairwise fun d e => d.id = e.id ↔ d.Clash e
  distinct : m.ids.Nodup ↔ m.definitions.Pairwise fun d e => ¬ d.Clash e
  first : ∀ id ∈ m.ids, ∃ k d, m.FirstUnder id k d ∧ m.Fires id k d
  only : m.ids.Nodup → ∀ k d, m.definitions[k]? = some d → m.Fires d.id k d
  unlisted : ∀ id, id ∉ m.ids → ∀ now event, m.fire now id event = (m, none)

theorem Wired.identified (h : m.Wired)
    (hclash : m.definitions.Pairwise fun d e => d.id = e.id ↔ d.Clash e) : m.Identified := by
  constructor
  case shared => exact hclash
  case distinct =>
    rw [ids_eq, List.Nodup, List.pairwise_map]
    constructor
    · intro hne
      exact hne.imp₂ (fun d e hne hclash hd => hne (hclash.mpr hd)) hclash
    · intro hfree
      exact hfree.imp₂ (fun d e hfree hclash hid => hfree (hclash.mp hid)) hclash
  case first =>
    intro id hid
    obtain ⟨k, d, hfirst⟩ := exists_firstUnder hid
    exact ⟨k, d, hfirst, h.fires_first hfirst⟩
  case only =>
    intro hnodup k d hk
    obtain ⟨hlt, hd⟩ := List.getElem?_eq_some_iff.mp hk
    refine h.fires_first ⟨hk, rfl, fun j hj e he heq => ?_⟩
    obtain ⟨hlt', rfl⟩ := List.getElem?_eq_some_iff.mp he
    rw [ids_eq, List.Nodup, List.pairwise_map, List.pairwise_iff_getElem] at hnodup
    exact hnodup j k hlt' hlt hj (heq.trans (by rw [hd]))
  case unlisted => exact fun _ hid => fire_unlisted hid

/-! ## After a refresh -/

/-- Whether a pass brings something about, and the other acts of some kind leave it alone. -/
structure Established (settings : TriggerSettings) (acts : Act → Prop) (P : Manager → Prop) :
    Prop where
  begun : ∀ (m : Manager) (a : Act), m.Wired → m.settings = settings → acts a → m.mark? a = some .begun →
    P (m.perform a).1
  kept : ∀ (m : Manager) (a : Act), m.Wired → m.settings = settings → acts a → m.mark? a ≠ some .begun → P m →
    P (m.perform a).1

section Established

variable {settings : TriggerSettings} {kind : Act → Prop} {P : Manager → Prop} {s : RefreshStage}
  {tree : FileTree}

theorem Established.perform (h : Established settings kind P) {a : Act} (ha : kind a)
    (hw : m.Wired) (hsettings : m.settings = settings) (hs : m.Stands s)
    (hP : s.owed = 0 → P m) :
    ∃ t, (m.perform a).1.Stands t ∧ (t.owed = 0 → P (m.perform a).1) := by
  obtain ⟨t, ht, hthrough⟩ := stands_perform hs a
  refine ⟨t, ht, fun howed => ?_⟩
  by_cases hbegun : m.mark? a = some .begun
  · exact h.begun m a hw hsettings ha hbegun
  · refine h.kept m a hw hsettings ha hbegun (hP ?_)
    cases hmark : m.mark? a with
    | none =>
      rw [hmark] at hthrough
      cases hthrough
      exact howed
    | some k =>
      rw [hmark] at hthrough hbegun
      obtain ⟨u, hafter, hlast⟩ := RefreshStage.through?_cons.mp hthrough
      cases hlast
      exact RefreshStage.owed_of_after? hafter (by simpa using hbegun) howed

theorem Established.course (h : Established settings kind P) {acts : List Act}
    (hacts : ∀ a ∈ acts, kind a) (hw : m.Wired) (hsettings : m.settings = settings)
    (hs : m.Stands s) (hP : s.owed = 0 → P m) :
    ∃ t, (m.course acts).1.Stands t ∧ (t.owed = 0 → P (m.course acts).1) := by
  induction acts generalizing m s with
  | nil => exact ⟨s, hs, hP⟩
  | cons a rest ih =>
    obtain ⟨ha, hrest⟩ := List.forall_mem_cons.mp hacts
    obtain ⟨t, ht, hPt⟩ := h.perform ha hw hsettings hs hP
    exact ih hrest (hw.perform a) ((settings_perform m a).trans hsettings) ht hPt

/-- When no refresh is under way any more after one has been asked for, it holds. -/
theorem Established.refreshed (h : Established settings kind P) {ask : Act}
    (hask : ask = .refresh ∨ ask = .start) {during : List Act} (hduring : ∀ a ∈ during, kind a)
    (hw : m.Wired) (hsettings : m.settings = settings) (hs : m.Stands s)
    (settled : (m.course (ask :: during)).1.refreshing = false) :
    P (m.course (ask :: during)).1 := by
  have hmark : m.mark? ask = some .asked := by rcases hask with rfl | rfl <;> rfl
  obtain ⟨t, ht, hthrough⟩ := stands_perform hs ask
  rw [hmark] at hthrough
  obtain ⟨u, hafter, hlast⟩ := RefreshStage.through?_cons.mp hthrough
  cases hlast
  have howed : t.owed ≠ 0 := by cases s <;> cases hafter <;> simp [RefreshStage.owed]
  obtain ⟨v, hv, hP⟩ := h.course hduring (hw.perform ask)
    ((settings_perform m ask).trans hsettings) ht fun hnone => absurd hnone howed
  obtain rfl := hv.eq_idle settled
  exact hP rfl

/-- A pass of a manager, shut down or not. -/
theorem definitions_proceedAt {now place : Nat} {bindable : Bool}
    (hready : m.passes[place]? = some .ready) :
    (m.proceedAt now tree bindable place).definitions =
      if m.stopped then [] else m.declared tree := by
  have hpass : (m.proceedAt now tree bindable place).definitions =
      (m.pass now tree).1.definitions := by
    unfold proceedAt
    rw [hready]
    rfl
  rw [hpass]
  cases hgoing : m.stopped with
  | false =>
    rw [definitions_pass hgoing]
    rfl
  | true =>
    have hstopped : m.clear.stopped = true := hgoing
    unfold pass
    dsimp only
    rw [if_pos hstopped]
    rfl

theorem established_clashes (hsound : tree.Sound)
    (hsteps : tree.DistinctSteps settings.triggerRoot) :
    Established settings (Act.Reads tree)
      fun m => m.definitions.Pairwise fun d e => d.id = e.id ↔ d.Clash e := by
  constructor
  case begun =>
    intro m a _ hsettings ha hbegun
    obtain ⟨now, other, bindable, place, rfl, hready⟩ := begins_of_mark? hbegun
    obtain rfl : other = tree := ha
    show (m.proceedAt now other bindable place).definitions.Pairwise _
    rw [definitions_proceedAt hready]
    unfold declared
    rw [hsettings]
    split
    · exact List.Pairwise.nil
    · split
      · exact (declares_triggersBelow _ _ _).id_eq_iff_clash hsound hsteps
      · exact List.Pairwise.nil
  case kept =>
    intro m a hw _ ha hbegun hclash
    rw [definitions_of_table hw (table_of_unbegun ha.ne_shutdown hbegun)]
    exact hclash

/-- Whether no registered trigger has fired. -/
def Unused (m : Manager) : Prop :=
  ∀ t ∈ m.table, ∃ d, m.triggers[t]? = some (.ofDefinition d)

/-- Whether an act goes on with a refresh. -/
def Act.Proceeds (a : Act) : Prop :=
  ∃ now tree bindable place, a = .proceed now tree bindable place

theorem unused_pass (m : Manager) (now : Nat) (tree : FileTree) : (m.pass now tree).1.Unused := by
  unfold pass
  dsimp only
  split
  · intro t ht
    cases ht
  · rw [(synced _).frame.1]
    intro t ht
    have ht : t ∈ (m.clear.install now (m.clear.declared tree)).table := ht
    rw [install_table] at ht
    obtain ⟨⟨d, t⟩, hd, rfl⟩ := List.mem_map.mp ((List.mem_append.mp ht).resolve_left (by simp [clear]))
    obtain ⟨hle, hfound⟩ := List.mk_mem_zipIdx_iff_le_and_getElem?_sub.mp hd
    refine ⟨d, ?_⟩
    show (m.clear.install now (m.clear.declared tree)).triggers[t]? = _
    rw [install_triggers, List.getElem?_append_right hle, List.getElem?_map, hfound]
    rfl

theorem established_unused : Established settings Act.Proceeds Unused := by
  constructor
  case begun =>
    intro m a _ _ _ hbegun
    obtain ⟨now, tree, bindable, place, rfl, hready⟩ := begins_of_mark? hbegun
    show (m.proceedAt now tree bindable place).Unused
    unfold proceedAt
    rw [hready]
    exact unused_pass m now tree
  case kept =>
    intro m a _ _ ha hbegun hunused
    obtain ⟨now, tree, bindable, place, rfl⟩ := ha
    show (m.proceedAt now tree bindable place).Unused
    unfold proceedAt
    split
    · exact hunused
    · rename_i p hp
      cases p with
      | ready => simp [mark?, hp] at hbegun
      | stopping port => cases port <;> exact hunused
      | binding port => cases bindable <;> exact hunused
      | passed =>
        unfold proceed endPass
        dsimp only
        split <;> exact hunused

/-- What the ids are good for when a refresh is over. -/
structure IdsOfRefresh (tree : FileTree) (m : Manager) : Prop where
  /-- When a refresh has been carried out, the first firing of each id is not refused. -/
  carried : ∀ now bindable, (m.refresh now tree bindable).Identified ∧
    ∀ id ∈ (m.refresh now tree bindable).ids, ∀ later event,
      ((m.refresh now tree bindable).fire later id event).2.isSome
  /-- Anything else may go on during a refresh. -/
  interleaved : ∀ ask, ask = .refresh ∨ ask = .start → ∀ during, (∀ a ∈ during, a.Reads tree) →
    (m.course (ask :: during)).1.refreshing = false → (m.course (ask :: during)).1.Identified

theorem Identified.fires_unused (h : m.Identified) (hunused : m.Unused) (hid : id ∈ m.ids)
    (now : Nat) (event : Json) : (m.fire now id event).2.isSome := by
  obtain ⟨k, d, -, t, live, ht, hl, -, hfires⟩ := h.first id hid
  obtain ⟨e, he⟩ := hunused t (List.mem_of_getElem? ht)
  obtain rfl := Option.some.inj (hl.symm.trans he)
  rw [hfires, LiveTrigger.accepts_ofDefinition]
  rfl

/-- Whatever was done with a manager, after a refresh two triggers have one id if they clash, and
each listed id fires the first trigger listed under it and no other one. -/
theorem ids_of_refresh (settings : TriggerSettings) (acts : List Act) (tree : FileTree)
    (sound : tree.Sound) (steps : tree.DistinctSteps settings.triggerRoot) :
    IdsOfRefresh tree ((new settings).course acts).1 := by
  have hw := wired_course (wired_new settings) acts
  obtain ⟨s, hs, -⟩ := through_course (stands_new settings) acts
  have hsettings := settings_course (new settings) acts
  generalize ((new settings).course acts).1 = m at *
  have hclashes := established_clashes sound steps
  have hinterleaved : ∀ ask, ask = .refresh ∨ ask = .start → ∀ during,
      (∀ a ∈ during, a.Reads tree) → (m.course (ask :: during)).1.refreshing = false →
      (m.course (ask :: during)).1.Identified := by
    intro ask hask during hreads settled
    refine (wired_course hw _).identified ?_
    exact hclashes.refreshed hask hreads hw hsettings hs settled
  constructor
  case carried =>
    intro now bindable
    have hsettled := settled_refresh hs now tree bindable
    rw [refresh_eq_course] at hsettled ⊢
    have hids := hinterleaved .refresh (.inl rfl) _ (reads_replicate _ now tree bindable 0) hsettled
    refine ⟨hids, fun id hid later event => hids.fires_unused ?_ hid later event⟩
    refine established_unused.refreshed (.inl rfl) (fun a ha => ?_) hw hsettings hs hsettled
    exact ⟨now, tree, bindable, 0, List.eq_of_mem_replicate ha⟩
  case interleaved => exact hinterleaved

end Established

/-- A new manager registers what the documents declare. -/
theorem definitions_first_refresh (settings : TriggerSettings) (enabled : settings.enabled = true)
    (now : Nat) (tree : FileTree) (bindable : Bool) :
    ((new settings).refresh now tree bindable).definitions =
      tree.triggersBelow settings.triggerRoot settings.defaults := by
  have hfirst := renewing_refresh (wired_new settings) (stands_new settings) rfl now tree bindable
  rw [(hfirst.renewed rfl).definitions, declared, settings_refresh]
  exact if_pos enabled

/-- A pipeline with a timer. -/
def timerText : String :=
  "\x7b\"name\":\"n\",\"steps\":[\x7b\"id\":\"go\",\"intent\":\"system.trigger.cron\"," ++
    "\"payload\":\x7b\"intervalMs\":60000\x7d\x7d]\x7d"

/-- Two documents of one name, in different directories. -/
def namesakes : FileTree :=
  (FileTree.empty.plant "/.flowline/a/x.intent.json" (Text.encode timerText)).plant
    "/.flowline/b/x.intent.json" (Text.encode timerText)

theorem pipelinesBelow_namesakes : namesakes.pipelinesBelow plain.triggerRoot =
    ["/.flowline/a/x.intent.json", "/.flowline/b/x.intent.json"] := by
  have hsorted : Path.sort ["/.flowline/a/x.intent.json", "/.flowline/b/x.intent.json"] =
      ["/.flowline/a/x.intent.json", "/.flowline/b/x.intent.json"] :=
    List.mergeSort_of_pairwise (by decide +kernel)
  rw [← hsorted]
  rfl

theorem sound_namesakes : namesakes.Sound := (FileTree.sound_empty.plant _ _).plant _ _

theorem distinctSteps_namesakes : namesakes.DistinctSteps plain.triggerRoot := by
  rw [FileTree.distinctSteps_iff, pipelinesBelow_namesakes]
  decide +kernel

/-- Each step of documents in different directories has an id of its own in its document. -/
theorem ids_of_namesakes : namesakes.Sound ∧ namesakes.DistinctSteps plain.triggerRoot ∧
    IdsOfRefresh namesakes ((new plain).course [.start, .shutdown]).1 :=
  ⟨sound_namesakes, distinctSteps_namesakes,
    ids_of_refresh plain [.start, .shutdown] namesakes sound_namesakes distinctSteps_namesakes⟩

/-- Yet the triggers of two documents of one name have one id, and the second trigger cannot be
fired by it. -/
theorem namesakes_share_id : namesakes.Sound ∧ namesakes.DistinctSteps plain.triggerRoot ∧
    ((new plain).refresh 0 namesakes true).ids = ["x.intent.json#go", "x.intent.json#go"] ∧
      ∃ d, d.pipeline = "/.flowline/a/x.intent.json" ∧
        ((new plain).refresh 0 namesakes true).Fires "x.intent.json#go" 0 d := by
  have hlisted : ((new plain).refresh 0 namesakes true).definitions.map
      (fun d => (d.pipeline, d.id)) =
        [("/.flowline/a/x.intent.json", "x.intent.json#go"),
          ("/.flowline/b/x.intent.json", "x.intent.json#go")] := by
    rw [definitions_first_refresh plain rfl, FileTree.triggersBelow, pipelinesBelow_namesakes]
    decide +kernel
  refine ⟨sound_namesakes, distinctSteps_namesakes, ?_, ?_⟩
  · have hids := congrArg (List.map Prod.snd) hlisted
    rw [List.map_map] at hids
    exact (ids_eq _).trans hids
  · have hfirst := congrArg (·[0]?) hlisted
    rw [List.getElem?_map] at hfirst
    obtain ⟨d, hd, hparts⟩ := Option.map_eq_some_iff.mp hfirst
    obtain ⟨hpath, hid⟩ := Prod.mk.inj hparts
    have hwired : ((new plain).refresh 0 namesakes true).Wired := by
      rw [refresh_eq_course]
      exact wired_course (wired_new plain) _
    refine ⟨d, hpath, hwired.fires_first ⟨hd, hid, ?_⟩⟩
    intro j hj
    exact absurd hj (Nat.not_lt_zero j)

end Manager

end Workflow
