import Workflow.Event.Format
import Workflow.Proofs.JsonRecords
import Workflow.Proofs.Moments

/- Pipelines and events in JSON. What is written is read as it was (`Pipeline.read?_toJson`,
   `StampedEvent.read?_toJson`): each record is written from its slots, and each slot is read as what
   it was written for. What is read of a document of objects is written as the document was, without
   the fields that are passed over and those that are null (`Pipeline.toJson_of_read?`);
   `forms_of_documents` puts it together. -/
namespace Workflow

open Json

/-! ## Slots of one kind -/

theorem optional_text (x : Option String) :
    (slotOf (x.map Json.str)).optional Tree.string? = some x :=
  optional_map (fun _ => rfl) (by simp) x

theorem optional_flag (x : Option Bool) :
    (slotOf (x.map Json.bool)).optional Tree.bool? = some x :=
  optional_map (fun _ => rfl) (by simp) x

theorem text_of_optional {x : Option Json} {r : Option String}
    (h : (slotOf x).optional Tree.string? = some r) : r.map Json.str = stated x := by
  have hwritten := map_of_optional (fun v _ _ s hs => (string?_tree (v := v) hs).symm) h
  simpa using hwritten

theorem flag_of_optional {x : Option Json} {r : Option Bool}
    (h : (slotOf x).optional Tree.bool? = some r) : r.map Json.bool = stated x := by
  have hwritten := map_of_optional (fun v _ _ b hb => (bool?_tree (v := v) hb).symm) h
  simpa using hwritten

theorem text_of_required {x : Option Json} {s : String}
    (h : (slotOf x).required Tree.string? = some s) : x = some (.str s) := by
  obtain ⟨v, rfl, hv⟩ := exists_of_required h
  rw [string?_tree hv]

/-! ## Notes -/

namespace Intent

/-- What a field of a note is written from. -/
def Meta.slot (m : Intent.Meta) : String → Option Json
  | "dryRun" => m.dryRun.map .bool
  | "traceId" => m.traceId.map .str
  | "stepId" => m.stepId.map .str
  | "runId" => m.runId.map .str
  | _ => none

theorem Meta.toJson_eq (m : Intent.Meta) :
    m.toJson = ofPairs (present (Meta.fieldNames.map fun n => (n, m.slot n))) := by
  simp [Meta.toJson, Meta.fieldNames, Meta.slot, presentText, present_cons, present_nil,
    Option.toList_map, Function.comp_def]

/-- A note has the fields that it is written from, under their names. -/
theorem Meta.field?_toJson (m : Intent.Meta) (name : String) :
    m.toJson.field? name = m.slot name := by
  rw [Meta.toJson_eq, field?_present (by decide)]
  unfold Meta.slot
  split <;> simp_all [Meta.fieldNames]

theorem Meta.read?_toJson (m : Intent.Meta) : Meta.read? m.toJson.tree = some m := by
  unfold Meta.read?
  rw [Meta.toJson_eq, record?_present (by decide)]
  simp [Meta.fieldNames, Meta.slot, optional_text, optional_flag]

/-- A note without unknown fields and those that are null. -/
def tidiedNote : Json → Json
  | .obj fields => .obj (tidied Meta.fieldNames Meta.fieldNames (fun _ v => v) fields)
  | v => v

theorem Meta.toJson_of_read? {fields : List (String × Json)} {m : Intent.Meta}
    (h : Table.Ordered fields) (hread : Meta.read? (Json.obj fields).tree = some m) :
    m.toJson = tidiedNote (.obj fields) := by
  unfold Meta.read? at hread
  rw [record?_tree (by decide) h] at hread
  obtain ⟨dryRun, hdryRun, hread⟩ := Option.bind_eq_some_iff.mp hread
  obtain ⟨traceId, htraceId, hread⟩ := Option.bind_eq_some_iff.mp hread
  obtain ⟨stepId, hstepId, hread⟩ := Option.bind_eq_some_iff.mp hread
  obtain ⟨runId, hrunId, hread⟩ := Option.bind_eq_some_iff.mp hread
  cases hread
  rw [Meta.toJson_eq, tidiedNote, ← present_eq_tidied (by decide) h (fun _ hn hnot => absurd hn hnot),
    ofPairs]
  congr 3
  simp [Meta.fieldNames, Meta.slot, flag_of_optional hdryRun, text_of_optional htraceId,
    text_of_optional hstepId, text_of_optional hrunId]

/-! ## Intents -/

/-- What a field of an intent is written from. -/
def slot (i : Intent) : String → Option Json
  | "id" => i.id.map .str
  | "intent" => some (.str i.name)
  | "description" => i.description.map .str
  | "capabilities" => i.capabilities.map fun cs => .arr (cs.map .str)
  | "payload" => stated (some i.payload)
  | "provider" => i.provider.map .str
  | "target" => i.target.map .str
  | "onFailure" => i.onFailure.map .str
  | "meta" => i.note.map Meta.toJson
  | _ => none

theorem toJson_eq (i : Intent) :
    i.toJson = ofPairs (present (fieldNames.map fun n => (n, i.slot n))) := by
  have hpayload : payloadPair i.payload =
      ((stated (some i.payload)).map (("payload", ·))).toList := by
    cases i.payload <;> rfl
  simp [toJson, fieldNames, slot, presentText, present_cons, present_nil, Option.toList_map,
    Function.comp_def, hpayload]

/-- An intent has the fields that it is written from, under their names. -/
theorem field?_toJson (i : Intent) (name : String) : i.toJson.field? name = i.slot name := by
  rw [toJson_eq, field?_present (by decide)]
  unfold slot
  split <;> simp_all [fieldNames]

/-- Written, an intent is higher than its payload. -/
theorem height_payload_lt (i : Intent) : i.payload.height < i.toJson.height := by
  rw [toJson_eq]
  cases hpayload : i.payload with
  | null => exact Nat.succ_pos _
  | bool | num | str | arr | obj =>
    refine height_lt_of_slot (by decide) (show "payload" ∈ fieldNames by decide) ?_
    rw [slot, hpayload]
    rfl

theorem read?_toJson {i : Intent} (h : i.payload.Canonical) {depth : Nat}
    (hdepth : i.toJson.height ≤ depth) : read? depth i.toJson.tree = some i := by
  have hpayload : (slotOf (stated (some i.payload))).withDefault .null (Tree.value? (depth - 1)) =
      some i.payload := by
    have hvalue := value?_tree i.payload h (depth - 1)
    rw [if_pos (Nat.le_sub_one_of_lt (Nat.lt_of_lt_of_le i.height_payload_lt hdepth))] at hvalue
    cases hpayload : i.payload with
    | null => rfl
    | bool | num | str | arr | obj =>
      rw [hpayload] at hvalue
      exact hvalue
  have hcapabilities : (slotOf (i.capabilities.map fun cs => Json.arr (cs.map .str))).optional
      Tree.strings? = some i.capabilities := optional_map strings?_texts (by simp) _
  have hnote : (slotOf (i.note.map Meta.toJson)).optional Meta.read? = some i.note :=
    optional_map Meta.read?_toJson (by simp [Meta.toJson, ofPairs]) _
  have hname : (slotOf (some (.str i.name))).required Tree.string? = some i.name := rfl
  unfold read?
  rw [toJson_eq, record?_present (by decide)]
  simp [fieldNames, slot, optional_text, hpayload, hcapabilities, hnote, hname]

/-- The fields of an intent that may be null. -/
def nullable : List String := fieldNames.erase "intent"

/-- A step without unknown fields and those that are null, its note as well. -/
def tidiedStep : Json → Json
  | .obj fields =>
    .obj (tidied fieldNames nullable (fun n v => if n = "meta" then tidiedNote v else v) fields)
  | v => v

/-- Whether a step is an object, and its note as well if it has one. -/
def InObjects (v : Json) : Prop :=
  ∃ fields, v = .obj fields ∧ ∀ note, Table.get? fields "meta" = some note → note ≠ .null →
    ∃ noteFields, note = .obj noteFields

theorem toJson_of_read? {v : Json} (h : v.Canonical) (hobjects : InObjects v) {depth : Nat}
    {i : Intent} (hread : read? depth v.tree = some i) : i.toJson = tidiedStep v := by
  obtain ⟨fields, rfl, hnotes⟩ := hobjects
  unfold read? at hread
  rw [record?_tree (by decide) h.1] at hread
  obtain ⟨id, hid, hread⟩ := Option.bind_eq_some_iff.mp hread
  obtain ⟨name, hname, hread⟩ := Option.bind_eq_some_iff.mp hread
  obtain ⟨description, hdescription, hread⟩ := Option.bind_eq_some_iff.mp hread
  obtain ⟨capabilities, hcapabilities, hread⟩ := Option.bind_eq_some_iff.mp hread
  obtain ⟨payload, hpayload, hread⟩ := Option.bind_eq_some_iff.mp hread
  obtain ⟨provider, hprovider, hread⟩ := Option.bind_eq_some_iff.mp hread
  obtain ⟨target, htarget, hread⟩ := Option.bind_eq_some_iff.mp hread
  obtain ⟨onFailure, honFailure, hread⟩ := Option.bind_eq_some_iff.mp hread
  obtain ⟨note, hnote, hread⟩ := Option.bind_eq_some_iff.mp hread
  cases hread
  have hname := text_of_required hname
  have hcapabilities := map_of_optional
    (fun v _ _ texts ht => (strings?_tree (v := v) ht).symm) hcapabilities
  have hnote := map_of_optional (fun v hv hnull m hm => by
    obtain ⟨noteFields, rfl⟩ := hnotes v hv hnull
    exact Meta.toJson_of_read? (h.of_get? hv).1 hm) hnote
  have hpayload : stated (some payload) = stated (Table.get? fields "payload") := by
    rcases exists_of_withDefault hpayload with ⟨hnone, rfl⟩ | ⟨v, hv, hvalue⟩
    · rw [hnone]
      rfl
    · rw [hv, eq_of_value?_tree (h.of_get? hv) hvalue]
  have hrequired : ∀ n ∈ fieldNames, n ∉ nullable → Table.get? fields n ≠ some .null := by
    intro n hn hnot hnull
    by_cases hname' : n = "intent"
    · rw [hname', hname] at hnull
      cases hnull
    · exact hnot ((List.mem_erase_of_ne hname').mpr hn)
  have hintent : stated (Table.get? fields "intent") = some (.str name) := by
    rw [hname]
    rfl
  rw [toJson_eq, tidiedStep, ← present_eq_tidied (by decide) h.1 hrequired, ofPairs]
  congr 3
  simp [fieldNames, slot, text_of_optional hid, text_of_optional hdescription, hcapabilities,
    hpayload, text_of_optional hprovider, text_of_optional htarget, text_of_optional honFailure,
    hnote, hintent]

end Intent

/-! ## Pipelines -/

namespace Pipeline

/-- What a field of a pipeline is written from. -/
def slot (p : Pipeline) : String → Option Json
  | "name" => some (.str p.name)
  | "profile" => p.profile.map .str
  | "steps" => some (.arr (p.steps.map Intent.toJson))
  | _ => none

theorem toJson_eq (p : Pipeline) :
    p.toJson = ofPairs (present (fieldNames.map fun n => (n, p.slot n))) := by
  simp [toJson, fieldNames, slot, presentText, present_cons, present_nil, Option.toList_map,
    Function.comp_def]

/-- A pipeline has the fields that it is written from, under their names. -/
theorem field?_toJson (p : Pipeline) (name : String) : p.toJson.field? name = p.slot name := by
  rw [toJson_eq, field?_present (by decide)]
  unfold slot
  split <;> simp_all [fieldNames]

/-- Whether all payloads are values with the fields of objects in order. -/
def Canonical (p : Pipeline) : Prop := ∀ step ∈ p.steps, step.payload.Canonical

theorem readSteps?_toJson {steps : List Intent} (h : ∀ step ∈ steps, step.payload.Canonical)
    {depth : Nat} (hdepth : (Json.arr (steps.map Intent.toJson)).height ≤ depth) :
    readSteps? depth (Json.arr (steps.map Intent.toJson)).tree = some steps := by
  have hheights : ∀ step ∈ steps, step.toJson.height ≤ depth - 1 := by
    intro step hstep
    have hlt := height_lt_of_mem (List.mem_map_of_mem (f := Intent.toJson) hstep)
    exact Nat.le_sub_one_of_lt (Nat.lt_of_lt_of_le hlt hdepth)
  show (treesOf (steps.map Intent.toJson)).mapM (Intent.read? (depth - 1)) = some steps
  clear hdepth
  induction steps with
  | nil => rfl
  | cons step rest ih =>
    obtain ⟨hstep, hrest⟩ := List.forall_mem_cons.mp h
    obtain ⟨hheight, hheights⟩ := List.forall_mem_cons.mp hheights
    rw [List.map_cons, treesOf, List.mapM_cons, Intent.read?_toJson hstep hheight,
      ih hrest hheights]
    rfl

theorem read?_toJson {p : Pipeline} (h : p.Canonical) {depth : Nat}
    (hdepth : p.toJson.height ≤ depth) : read? depth p.toJson.tree = some p := by
  have hsteps : (slotOf (some (.arr (p.steps.map Intent.toJson)))).withDefault []
      (readSteps? (depth - 1)) = some p.steps := by
    refine readSteps?_toJson h (Nat.le_sub_one_of_lt (Nat.lt_of_lt_of_le ?_ hdepth))
    rw [toJson_eq]
    exact height_lt_of_slot (by decide) (show "steps" ∈ fieldNames by decide) rfl
  have hname : (slotOf (some (.str p.name))).required Tree.string? = some p.name := rfl
  unfold read?
  rw [toJson_eq, record?_present (by decide)]
  simp [fieldNames, slot, optional_text, hname, hsteps]

/-- Steps without what the steps are left without. -/
def tidiedSteps : Json → Json
  | .arr steps => .arr (steps.map Intent.tidiedStep)
  | v => v

/-- A document without unknown fields and a null profile, its steps being tidied as well. Steps
are added if there are none. -/
def tidiedDocument : Json → Json
  | .obj fields =>
    let kept := tidied fieldNames ["profile"]
      (fun n v => if n = "steps" then tidiedSteps v else v) fields
    .obj (if Table.contains fields "steps" then kept else Table.insert "steps" (.arr []) kept)
  | v => v

/-- Whether a document is an object, and so are its steps and their notes. -/
def InObjects (v : Json) : Prop :=
  ∃ fields, v = .obj fields ∧
    ∀ steps, Table.get? fields "steps" = some (.arr steps) → ∀ step ∈ steps, Intent.InObjects step

theorem map_toJson_of_mapM {items : List Json} (h : ∀ v ∈ items, v.Canonical)
    (hobjects : ∀ v ∈ items, Intent.InObjects v) {depth : Nat} {steps : List Intent}
    (hread : (treesOf items).mapM (Intent.read? depth) = some steps) :
    steps.map Intent.toJson = items.map Intent.tidiedStep := by
  induction items generalizing steps with
  | nil =>
    cases hread
    rfl
  | cons v rest ih =>
    obtain ⟨hv, hrest⟩ := List.forall_mem_cons.mp h
    obtain ⟨hvobject, hobjects⟩ := List.forall_mem_cons.mp hobjects
    rw [treesOf, List.mapM_cons] at hread
    obtain ⟨step, hstep, hread⟩ := Option.bind_eq_some_iff.mp hread
    obtain ⟨others, hothers, heq⟩ := Option.bind_eq_some_iff.mp hread
    cases heq
    rw [List.map_cons, List.map_cons, Intent.toJson_of_read? hv hvobject hstep,
      ih hrest hobjects hothers]

/-- What is written of the steps is what is left of them, if there are any. -/
theorem steps_of_withDefault {fields : List (String × Json)} (h : (Json.obj fields).Canonical)
    (hobjects : ∀ steps, Table.get? fields "steps" = some (.arr steps) →
      ∀ step ∈ steps, Intent.InObjects step) {depth : Nat} {steps : List Intent}
    (hread : (slotOf (Table.get? fields "steps")).withDefault [] (readSteps? depth) =
      some steps) :
    Table.get? fields "steps" = none ∧ steps = [] ∨
      (stated (Table.get? fields "steps")).map tidiedSteps =
        some (.arr (steps.map Intent.toJson)) := by
  rcases exists_of_withDefault hread with ⟨hnone, rfl⟩ | ⟨v, hv, hsteps⟩
  · exact .inl ⟨hnone, rfl⟩
  · cases v with
    | null | bool | num | str | obj => cases hsteps
    | arr items =>
      have hitems := canonicalItems_iff.mp (h.of_get? hv)
      refine .inr ?_
      rw [hv, map_toJson_of_mapM hitems (hobjects items hv) hsteps]
      rfl

theorem toJson_of_read? {v : Json} (h : v.Canonical) (hobjects : InObjects v) {depth : Nat}
    {p : Pipeline} (hread : read? depth v.tree = some p) : p.toJson = tidiedDocument v := by
  obtain ⟨fields, rfl, hobjects⟩ := hobjects
  unfold read? at hread
  rw [record?_tree (by decide) h.1] at hread
  obtain ⟨name, hname, hread⟩ := Option.bind_eq_some_iff.mp hread
  obtain ⟨profile, hprofile, hread⟩ := Option.bind_eq_some_iff.mp hread
  obtain ⟨steps, hsteps, hread⟩ := Option.bind_eq_some_iff.mp hread
  cases hread
  have hname := text_of_required hname
  have hstated : stated (Table.get? fields "name") = some (.str name) := by
    rw [hname]
    rfl
  have hrequired : ∀ n ∈ fieldNames, n ∉ ["profile"] → Table.get? fields n ≠ some .null := by
    intro n hn hnot hnull
    have hcases : n = "name" ∨ n = "steps" := by
      simp only [fieldNames, List.mem_cons, List.not_mem_nil, or_false] at hn hnot
      rcases hn with h | h | h
      · exact .inl h
      · exact absurd h hnot
      · exact .inr h
    rcases hcases with rfl | rfl
    · rw [hname] at hnull
      cases hnull
    · dsimp only at hsteps
      rw [hnull] at hsteps
      cases hsteps
  have htidied := present_eq_tidied (by decide) h.1 hrequired
    fun n v => if n = "steps" then tidiedSteps v else v
  rw [toJson_eq, tidiedDocument, ← htidied, ofPairs]
  rcases steps_of_withDefault h hobjects hsteps with ⟨hnone, rfl⟩ | hsteps
  · -- the steps are added behind the fields that are left
    have hadded : ∀ pairs : List (String × Json), Table.ofPairs (pairs ++ [("steps", .arr [])]) =
        Table.insert "steps" (.arr []) (Table.ofPairs pairs) := by
      intro pairs
      unfold Table.ofPairs Table.insertAll
      rw [List.foldl_append]
      rfl
    have hcontains : ¬ Table.contains fields "steps" = true := by simp [Table.contains, hnone]
    have hstated' : stated (Table.get? fields "steps") = none := by
      rw [hnone]
      rfl
    rw [if_neg hcontains, ← hadded]
    congr 2
    simp [fieldNames, slot, present_cons, present_nil, hstated, hstated',
      text_of_optional hprofile]
  · have hcontains : Table.contains fields "steps" = true := by
      cases hget : Table.get? fields "steps" with
      | none =>
        rw [hget] at hsteps
        cases hsteps
      | some v => simp [Table.contains, hget]
    rw [if_pos hcontains]
    congr 3
    simp [fieldNames, slot, hstated, text_of_optional hprofile, hsteps]

end Pipeline

/-! ## Events -/

/-- Whether an event can be told: an index is one of 64 bits, the payloads of a pipeline have the
fields of their objects in order, and there is such a moment. -/
structure StampedEvent.Possible (e : StampedEvent) : Prop where
  index : ∀ i, e.happening.index? = some i → i < 0x10000000000000000
  pipeline : ∀ p, e.happening = .pipelineStart p → p.Canonical
  moment : e.timestamp.valid = true

theorem fieldNames?_name (h : Happening) :
    Happening.fieldNames? h.name = some (h.fields.map (·.1)) := by
  cases h <;> rfl

/-- The fields that are not the given one. -/
theorem filter_eq_singleton {table : Table Json} (h : table.Ordered) {name : String} {v : Json}
    (hv : table.get? name = some v) : table.filter (·.1 == name) = [(name, v)] := by
  induction table with
  | nil => cases hv
  | cons p rest ih =>
    obtain ⟨n, w⟩ := p
    have hrest := (List.pairwise_cons.mp h).2
    rw [Table.get?_cons] at hv
    by_cases hn : n = name
    · subst hn
      rw [if_pos rfl] at hv
      cases hv
      have hnone : rest.filter (·.1 == n) = [] := by
        rw [List.filter_eq_nil_iff]
        intro q hq hname
        have habsent := Table.get?_eq_none_iff.mp (Table.get?_of_head h)
        exact habsent (List.mem_map.mpr ⟨q, hq, by simpa using hname⟩)
      rw [List.filter_cons, if_pos (by simp), hnone]
    · rw [if_neg hn] at hv
      rw [List.filter_cons, if_neg (by simpa using hn), ih hrest hv]

/-- The tag of an object is taken off, and the other fields are read as they were written. -/
theorem splitTag?_ofPairs {tag : String} {pairs : List (String × Json)}
    (hnodup : (("type", Json.str tag) :: pairs).map (·.1) |>.Nodup) :
    ∃ t, splitTag? (ofPairs (("type", .str tag) :: pairs)).tree = some (tag, t) ∧
      t.record? (pairs.map (·.1)) = some (pairs.map fun p => .given p.2.tree) := by
  obtain ⟨htag, hnames⟩ := List.nodup_cons.mp hnodup
  generalize htable : Table.ofPairs (("type", Json.str tag) :: pairs) = table
  have hordered : table.Ordered := htable ▸ Table.ordered_ofPairs _
  have hget : ∀ name, table.get? name = Table.get? (("type", Json.str tag) :: pairs) name := by
    rw [← htable]
    exact Table.get?_ofPairs hnodup
  have hkept := hordered.filter (·.1 != "type")
  have hfirst : (fieldTrees table).filter (·.1 == some "type") =
      [(some "type", .str (some tag))] := by
    rw [fieldTrees_eq_map, List.filter_map]
    have hsingle := filter_eq_singleton hordered (hget "type")
    have hsame : ((fun p : Option String × Tree => p.1 == some "type") ∘
        fun p : String × Json => (some p.1, p.2.tree)) = fun p => p.1 == "type" := by
      funext p
      simp
    rw [hsame, hsingle]
    rfl
  have hothers : (fieldTrees table).filter (·.1 != some "type") =
      fieldTrees (table.filter (·.1 != "type")) := by
    rw [fieldTrees_eq_map, fieldTrees_eq_map, List.filter_map]
    congr 2
  refine ⟨.obj (fieldTrees (table.filter (·.1 != "type"))), ?_, ?_⟩
  · show splitTag? (Json.obj (Table.ofPairs _)).tree = _
    rw [htable, tree, splitTag?, hfirst, hothers]
  · have hrecord := record?_tree hnames hkept
    rw [tree] at hrecord
    rw [hrecord, List.map_map]
    refine congrArg some (List.map_congr_left fun p hp => ?_)
    have hne : p.1 ≠ "type" := fun heq => htag (List.mem_map.mpr ⟨p, hp, heq⟩)
    have hp : table.get? p.1 = some p.2 := by
      rw [hget]
      exact Table.get?_of_mem hnodup (List.mem_cons_of_mem _ hp)
    have hmem : (p.1, p.2) ∈ table.filter (·.1 != "type") :=
      List.mem_filter.mpr ⟨(Table.mem_iff_get? hordered _ _).mpr hp, by simpa using hne⟩
    rw [Function.comp_apply, (Table.mem_iff_get? hkept _ _).mp hmem]
    rfl

theorem required_ofNat {i bound : Nat} (h : i < bound) :
    (Slot.given (Json.ofNat i).tree).required (Tree.natBelow? bound) = some i := by
  have hbound : (0 : Int) ≤ i ∧ (i : Int) < bound := by omega
  show (if (decide ((0 : Int) ≤ i) && decide ((i : Int) < bound)) = true then
    some (Int.toNat i) else none) = some i
  rw [if_pos (by simpa using hbound.2), Int.toNat_natCast]

theorem required_text (s : String) : (Slot.given (Json.str s).tree).required Tree.string? = some s :=
  rfl

theorem required_flag (b : Bool) : (Slot.given (Json.bool b).tree).required Tree.bool? = some b :=
  rfl

theorem nullable_ofOption (x : Option String) :
    (Slot.given (Json.ofOption x).tree).nullable Tree.string? = some x := by
  cases x <;> rfl

theorem ofSlots?_stepStart (depth : Nat) (index stepId intent : Slot) :
    Happening.ofSlots? depth "stepStart" [index, stepId, intent] =
      (index.required (Tree.natBelow? 0x10000000000000000)).bind fun index =>
        (stepId.nullable Tree.string?).bind fun stepId =>
          (intent.required Tree.string?).bind fun intent =>
            some (.stepStart index stepId intent) := rfl

theorem ofSlots?_stepEnd (depth : Nat) (index stepId success : Slot) :
    Happening.ofSlots? depth "stepEnd" [index, stepId, success] =
      (index.required (Tree.natBelow? 0x10000000000000000)).bind fun index =>
        (stepId.nullable Tree.string?).bind fun stepId =>
          (success.required Tree.bool?).bind fun success =>
            some (.stepEnd index stepId success) := rfl

/-- What happened is read from the fields that it is written with. -/
theorem ofSlots?_fields {h : Happening} (hindex : ∀ i, h.index? = some i → i < 0x10000000000000000)
    (hpipeline : ∀ p, h = .pipelineStart p → p.Canonical) {depth : Nat}
    (hdepth : ∀ p ∈ h.fields, p.2.height ≤ depth) :
    Happening.ofSlots? depth h.name (h.fields.map fun p => .given p.2.tree) = some h := by
  cases h with
  | pipelineStart p =>
    have hheight : p.toJson.height ≤ depth := hdepth ("pipeline", p.toJson) List.mem_cons_self
    show ((Slot.given p.toJson.tree).required (Pipeline.read? depth)).map
      Happening.pipelineStart = _
    rw [Slot.required, Pipeline.read?_toJson (hpipeline p rfl) hheight]
    rfl
  | pipelineEnd success status => cases status <;> rfl
  | stepStart i id intent =>
    show Happening.ofSlots? depth "stepStart" [.given (Json.ofNat i).tree,
      .given (Json.ofOption id).tree, .given (Json.str intent).tree] = _
    rw [ofSlots?_stepStart, required_ofNat (hindex i rfl), nullable_ofOption, required_text]
    rfl
  | stepEnd i id success =>
    show Happening.ofSlots? depth "stepEnd" [.given (Json.ofNat i).tree,
      .given (Json.ofOption id).tree, .given (Json.bool success).tree] = _
    rw [ofSlots?_stepEnd, required_ofNat (hindex i rfl), nullable_ofOption, required_flag]
    rfl
  | pipelinePause => rfl
  | pipelineResume => rfl

/-- The fields of an event. -/
def StampedEvent.pairs (e : StampedEvent) : List (String × Json) :=
  ("type", .str e.happening.name) :: ("runId", .str e.runId)
    :: ("timestamp", .str e.timestamp.text) :: e.happening.fields

theorem StampedEvent.pairs_nodup (e : StampedEvent) : (e.pairs.map (·.1)).Nodup := by
  unfold pairs
  cases e.happening <;> simp [Happening.fields]

/-- An event has its tag, the id of the run, the moment and the fields of what happened. -/
theorem StampedEvent.field?_toJson (e : StampedEvent) (name : String) :
    e.toJson.field? name = Table.get? e.pairs name :=
  Table.get?_ofPairs e.pairs_nodup name

/-- What is written of an event is read as it was. -/
theorem StampedEvent.read?_toJson {e : StampedEvent} (h : e.Possible) {depth : Nat}
    (hdepth : e.toJson.height ≤ depth) : read? depth e.toJson.tree = some e := by
  obtain ⟨t, hsplit, hrecord⟩ := splitTag?_ofPairs e.pairs_nodup
  have hheights : ∀ p ∈ e.happening.fields, p.2.height ≤ depth := by
    intro p hp
    have hmem : (p.1, p.2) ∈ e.pairs := by simp [pairs, hp]
    have hget := (e.field?_toJson p.1).trans (Table.get?_of_mem e.pairs_nodup hmem)
    exact Nat.le_trans (Nat.le_of_lt (height_lt_of_get? hget)) hdepth
  have hmoment : (Slot.given (Json.str e.timestamp.text).tree).required
      (fun t => t.string?.bind Timestamp.parse?) = some e.timestamp := by
    rw [Slot.required, tree, Tree.string?, Option.bind_some, Timestamp.parse?_text h.moment]
  have hhappening := ofSlots?_fields h.index h.pipeline hheights
  unfold read?
  rw [toJson, hsplit]
  simp only [Option.bind_eq_bind, Option.bind_some, fieldNames?_name]
  simp only [List.map_cons] at hrecord
  simp only [hrecord, Option.bind_some, required_text, hmoment, hhappening]

/-! ## Round trips -/

/-- What becomes of documents and events that are written and read, or read and written. -/
structure Forms : Prop where
  /-- Each field that is there stands under its name, and there are no others. -/
  pipelineFields : ∀ (p : Pipeline) name, p.toJson.field? name = p.slot name
  intentFields : ∀ (i : Intent) name, i.toJson.field? name = i.slot name
  noteFields : ∀ (m : Intent.Meta) name, m.toJson.field? name = m.slot name
  eventFields : ∀ (e : StampedEvent) name, e.toJson.field? name = Table.get? e.pairs name
  /-- A pipeline that is written is read as it was. -/
  pipeline : ∀ p : Pipeline, p.Canonical → ∀ depth, p.toJson.height ≤ depth →
    Pipeline.read? depth p.toJson.tree = some p
  /-- An event that is written is read as it was. -/
  event : ∀ e : StampedEvent, e.Possible → ∀ depth, e.toJson.height ≤ depth →
    StampedEvent.read? depth e.toJson.tree = some e
  /-- A document of objects that is read is written as it was, without the unknown fields and those
  that are null. -/
  document : ∀ v : Json, v.Canonical → Pipeline.InObjects v → ∀ depth p,
    Pipeline.read? depth v.tree = some p → p.toJson = Pipeline.tidiedDocument v

/-- Pipelines and events that are written are read as they were, and documents that are read are
written without what nothing becomes of. -/
theorem forms_of_documents : Forms where
  pipelineFields := Pipeline.field?_toJson
  intentFields := Intent.field?_toJson
  noteFields := Intent.Meta.field?_toJson
  eventFields := StampedEvent.field?_toJson
  pipeline _ h _ hdepth := Pipeline.read?_toJson h hdepth
  event _ h _ hdepth := StampedEvent.read?_toJson h hdepth
  document _ h hobjects _ _ hread := Pipeline.toJson_of_read? h hobjects hread

/-- A document with an unknown field and null ones. -/
def untidyDocument : Json :=
  .obj [("editor", .str "x"), ("name", .str "release"), ("profile", .null),
    ("steps", .arr [.obj [("id", .null), ("intent", .str "git.pull"),
      ("meta", .obj [("dryRun", .null), ("runId", .str "r")]), ("payload", .null)]])]

/-- The pipeline of that document. -/
def tidyPipeline : Pipeline where
  name := "release"
  steps := [{ name := "git.pull", note := some { runId := some "r" } }]

/-- The start of that pipeline, in a leap second. -/
def leapStart : StampedEvent where
  runId := "r"
  happening := .pipelineStart tidyPipeline
  timestamp := ⟨2016, 12, 31, 23, 59, 59, 1500000000⟩

theorem untidy_document_round_trip :
    Pipeline.read? 9 untidyDocument.tree = some tidyPipeline ∧
      tidyPipeline.toJson = .obj [("name", .str "release"),
        ("steps", .arr [.obj [("intent", .str "git.pull"),
          ("meta", .obj [("runId", .str "r")])]])] ∧
      Pipeline.read? 9 tidyPipeline.toJson.tree = some tidyPipeline ∧
      StampedEvent.read? 9 leapStart.toJson.tree = some leapStart := by
  have hread : Pipeline.read? 9 untidyDocument.tree = some tidyPipeline := rfl
  have hnames : ["editor", "name", "profile", "steps"].Pairwise (· < ·) ∧
      ["id", "intent", "meta", "payload"].Pairwise (· < ·) ∧ ["dryRun", "runId"].Pairwise (· < ·) := by
    decide +kernel
  have hcanonical : untidyDocument.Canonical := by
    simp only [untidyDocument, Json.Canonical, CanonicalFields, CanonicalItems, and_true, true_and]
    exact ⟨hnames.1, hnames.2.1, hnames.2.2⟩
  have hobjects : Pipeline.InObjects untidyDocument := by
    refine ⟨_, rfl, fun steps hsteps step hstep => ?_⟩
    obtain rfl : steps = _ := (Json.arr.inj (Option.some.inj hsteps)).symm
    obtain rfl := List.mem_singleton.mp hstep
    refine ⟨_, rfl, fun note hnote _ => ⟨_, (Option.some.inj hnote).symm⟩⟩
  have hpayloads : tidyPipeline.Canonical := by simp [Pipeline.Canonical, tidyPipeline, Json.Canonical]
  have hpossible : leapStart.Possible := by
    constructor
    case index => simp [leapStart, Happening.index?]
    case pipeline =>
      intro p hp
      obtain rfl := Happening.pipelineStart.inj hp
      exact hpayloads
    case moment => decide
  have hwritten := forms_of_documents.document untidyDocument hcanonical hobjects 9 _ hread
  refine ⟨hread, ?_, ?_, ?_⟩
  · rw [hwritten]
    rfl
  · exact forms_of_documents.pipeline tidyPipeline hpayloads 9 (by decide)
  · exact forms_of_documents.event leapStart hpossible 9 (by decide)

end Workflow
