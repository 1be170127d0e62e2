import Workflow.Proofs.ChainedRuns
import Workflow.Proofs.JsonTexts
import Workflow.Proofs.Spacing

/- The variables of an event. The fields of an event share their names with the three variables
   that tell of the trigger, but these are set last, so nothing that an event holds can take their
   place (`labels_eventVariables`), nor can anything that a chain sets (`labels_of_chain`). The
   other variables are the fields with a plain value, each under its name (`get?_eventVariables`).
   The text of the whole event leads back to it. -/
namespace Workflow

/-! ## Labels -/

/-- Whether variables tell of a trigger and of its event. -/
structure Labels (kind : TriggerKind) (stepId : Option String) (event : Json) (vars : Variables) :
    Prop where
  source : Table.get? vars "trigger_source" = some kind.name
  step : Table.get? vars "trigger_step_id" = some (stepId.getD "")
  event : Table.get? vars "trigger_event" = some event.render

/-- The names of these variables. -/
def labelNames : List String := ["trigger_source", "trigger_step_id", "trigger_event"]

/-- The text of a field that becomes a variable: a string as it is, a number or a boolean as it is
written. -/
def fieldText? : Json → Option String
  | .str s => some s
  | .num n => some (Json.num n).render
  | .bool b => some (Json.bool b).render
  | _ => none

section Variables

variable {kind : TriggerKind} {stepId : Option String} {event : Json} {name value : String}

theorem eventPair?_eq (field : String × Json) :
    eventPair? field = (fieldText? field.2).map ("trigger_" ++ field.1, ·) := by
  obtain ⟨name, v⟩ := field
  cases v with
  | bool b => cases b <;> rfl
  | null | num | str | arr | obj => rfl

/-- The reserved variables are set on top of those of the fields. -/
theorem eventVariables_eq (kind : TriggerKind) (stepId : Option String) (event : Json) :
    eventVariables kind stepId event =
      Table.insert "trigger_event" event.render (Table.insert "trigger_step_id" (stepId.getD "")
        (Table.insert "trigger_source" kind.name
          (Table.ofPairs ((eventFields event).filterMap eventPair?)))) := by
  unfold eventVariables Table.insertAll
  rw [List.foldl_append]
  rfl

/-- **No event takes the place of a label.** -/
theorem labels_eventVariables (kind : TriggerKind) (stepId : Option String) (event : Json) :
    Labels kind stepId event (eventVariables kind stepId event) := by
  rw [eventVariables_eq]
  constructor <;> simp [Table.get?_insert]

theorem names_eventPairs (fields : List (String × Json)) :
    ((fields.filterMap eventPair?).map (·.1)).Sublist
      (fields.map fun field => "trigger_" ++ field.1) := by
  induction fields with
  | nil => exact List.Sublist.slnil
  | cons field rest ih =>
    rw [List.filterMap_cons, eventPair?_eq]
    cases fieldText? field.2 with
    | none => exact ih.cons _
    | some text => exact ih.cons_cons _

/-- The pairs of an event's fields have different names. -/
theorem nodup_eventPairs (h : event.Canonical) :
    (((eventFields event).filterMap eventPair?).map (·.1)).Nodup := by
  refine (names_eventPairs _).nodup ?_
  cases event with
  | null | bool | num | str | arr => exact List.nodup_nil
  | obj fields =>
    have hnames : (fields.map (·.1)).Nodup := h.1.nodup
    have hprefix : Function.Injective ("trigger_" ++ · : String → String) := fun a b hab => by
      have htext := congrArg String.toList hab
      simp only [String.toList_append] at htext
      exact String.toList_inj.mp (List.append_cancel_left htext)
    have hmapped := hnames.map hprefix
    rwa [List.map_map] at hmapped

theorem mem_eventPairs (h : event.Canonical) :
    (name, value) ∈ (eventFields event).filterMap eventPair? ↔
      ∃ field v, name = "trigger_" ++ field ∧ event.field? field = some v ∧
        fieldText? v = some value := by
  have hfield : ∀ field v, (field, v) ∈ eventFields event ↔ event.field? field = some v := by
    cases event with
    | obj fields => exact Table.mem_iff_get? h.1
    | null | bool | num | str | arr => exact fun field v => by simp [eventFields, Json.field?]
  simp only [List.mem_filterMap, Prod.exists, eventPair?_eq, hfield, Option.map_eq_some_iff,
    Prod.mk.injEq]
  constructor
  · rintro ⟨field, v, hv, text, htext, rfl, rfl⟩
    exact ⟨field, v, rfl, hv, htext⟩
  · rintro ⟨field, v, rfl, hv, htext⟩
    exact ⟨field, v, hv, value, htext, rfl, rfl⟩

/-- The variables beside the labels are those of the fields with a plain value. -/
theorem get?_eventVariables (h : event.Canonical) (hname : name ∉ labelNames) :
    Table.get? (eventVariables kind stepId event) name = some value ↔
      ∃ field v, name = "trigger_" ++ field ∧ event.field? field = some v ∧
        fieldText? v = some value := by
  simp only [labelNames, List.mem_cons, List.not_mem_nil, or_false, not_or] at hname
  have hnodup := nodup_eventPairs h
  rw [eventVariables_eq, Table.get?_insert, if_neg (Ne.symm hname.2.2), Table.get?_insert,
    if_neg (Ne.symm hname.2.1), Table.get?_insert, if_neg (Ne.symm hname.1),
    Table.get?_ofPairs hnodup, ← mem_eventPairs h]
  exact ⟨Table.mem_of_get?, Table.get?_of_mem hnodup⟩

/-! ## Chains -/

/-- What a chain sets is none of the labels. -/
theorem Labels.chained {vars : Variables} (h : Labels kind stepId event vars) (source depth : String) :
    Labels kind stepId event
      (Table.insertAll vars [("trigger_chain_from", source), ("trigger_chain_depth", depth)]) where
  source := (Table.get?_insertAll_of_absent (by simp)).trans h.source
  step := (Table.get?_insertAll_of_absent (by simp)).trans h.step
  event := (Table.get?_insertAll_of_absent (by simp)).trans h.event

/-- Every run of a firing has the labels of the trigger that fired. -/
theorem labels_of_chain (settings : TriggerSettings) (d : TriggerDefinition) (event : Json)
    (ends : Nat → Chain.Ending) {r : RunRequest}
    (hr : r ∈ (Chain.begin d event).requests settings ends) :
    Labels d.kind d.stepId event r.vars := by
  obtain ⟨k, hk⟩ := List.mem_iff_getElem?.mp hr
  obtain ⟨c, hc, rfl⟩ := Chain.requests_getElem?.mp hk
  have hcarries := (Chain.carries_of_walk settings d event ends hc).1
  have hlabels := labels_eventVariables d.kind d.stepId event
  by_cases hzero : k = 0
  · rw [hcarries.first hzero]
    exact hlabels
  · obtain ⟨source, hvars⟩ := hcarries.chained hzero
    rw [hvars]
    exact hlabels.chained source _

end Variables

/-- What the variables of an event are. -/
structure Describes (kind : TriggerKind) (stepId : Option String) (event : Json)
    (vars : Variables) : Prop where
  labels : Labels kind stepId event vars
  others : ∀ name value, name ∉ labelNames → (Table.get? vars name = some value ↔
    ∃ field v, name = "trigger_" ++ field ∧ event.field? field = some v ∧
      fieldText? v = some value)
  /-- Each name stands there once. -/
  ordered : Table.Ordered vars
  /-- The text of the whole event says all of it. -/
  readable : event.Whole → event.height ≤ Json.depthLimit →
    (Table.get? vars "trigger_event").bind Json.parse? = some event

/-- **The variables of an event.** They are the three labels and, for each field with a plain value
under another name, its text; and the text of the event leads back to it. So whatever events a
trigger fires for, all the runs that come of it are told which trigger fired, and by what. -/
theorem variables_of_event (kind : TriggerKind) (stepId : Option String) (event : Json)
    (canonical : event.Canonical) :
    Describes kind stepId event (eventVariables kind stepId event) ∧
      (∀ (d : TriggerDefinition) (other : Json) (settings : TriggerSettings)
        (ends : Nat → Chain.Ending),
        ∀ r ∈ (Chain.begin d other).requests settings ends,
          Labels d.kind d.stepId other r.vars) ∧
      ∀ s : Rehearsal.WatchStage, s.Invokes := by
  refine ⟨?_, fun d other settings ends r hr => labels_of_chain settings d other ends hr,
    Rehearsal.WatchStage.invokes⟩
  have hlabels := labels_eventVariables kind stepId event
  constructor
  case labels => exact hlabels
  case others => exact fun name value hname => get?_eventVariables canonical hname
  case ordered =>
    have hnil : Table.Ordered ([] : Variables) := List.Pairwise.nil
    exact Table.ordered_insertAll hnil _
  case readable =>
    intro hwhole hheight
    rw [hlabels.event, Option.bind_some, Json.parse?_render event hwhole canonical,
      if_pos hheight]

/-- An event whose fields would have the names of the labels. -/
def meddlingEvent : Json :=
  .obj [("event", .str "none"), ("items", .arr [.num (.int (-1)), .obj [("deep", .null)]]),
    ("retries", .num (.int 3)), ("source", .str "cron"), ("step_id", .bool true)]

/-- It makes its other plain field known, and nothing of what it holds under the names of the
labels. -/
theorem meddling_event_is_labelled :
    Labels .webhook (some "deploy") meddlingEvent
        (eventVariables .webhook (some "deploy") meddlingEvent) ∧
      Table.get? (eventVariables .webhook (some "deploy") meddlingEvent) "trigger_retries" =
        some "3" ∧
      Json.parse? meddlingEvent.render = some meddlingEvent := by
  have hnames : ["event", "items", "retries", "source", "step_id"].Pairwise (· < ·) := by
    decide +kernel
  have hcanonical : meddlingEvent.Canonical := by
    refine ⟨hnames, ?_⟩
    simp [Json.CanonicalFields, Json.CanonicalItems, Json.Canonical, Table.Ordered, Table.names]
  have hwhole : meddlingEvent.Whole := by
    simp [meddlingEvent, Json.Whole, Json.WholeFields, Json.WholeItems, Json.Number.IsWhole]
  have hdescribes := (variables_of_event .webhook (some "deploy") meddlingEvent hcanonical).1
  refine ⟨hdescribes.labels, ?_, ?_⟩
  · have hfield : meddlingEvent.field? "retries" = some (.num (.int 3)) := by
      simp [meddlingEvent, Json.field?, Table.get?]
    exact (hdescribes.others "trigger_retries" "3" (by simp [labelNames])).mpr
      ⟨"retries", .num (.int 3), by simp, hfield, rfl⟩
  · have hreadable := hdescribes.readable hwhole (by decide)
    rwa [hdescribes.labels.event, Option.bind_some] at hreadable

end Workflow
