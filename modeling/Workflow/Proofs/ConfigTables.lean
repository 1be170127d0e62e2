import Workflow.Config.Format
import Workflow.Proofs.TomlTables

/- Configurations written as TOML. Every section that is there is a table and every mapping an item
   of an array (`sheet`), which the text of a sound configuration says line by line
   (`parse?_toToml`). The fields so written are read as the sections they came from
   (`ofFields?_written`). -/
namespace Workflow

open Toml

namespace Config

variable {c : Config}

/-! ## Lines -/

theorem writes_of_valueText? {v : Value} {value : List Char} (h : valueText? v = some value) :
    Writes value v := by
  cases v with
  | text s =>
    obtain rfl := Option.some.inj h
    exact writes_quote s
  | truth b =>
    obtain rfl := Option.some.inj h
    exact writes_truth b
  | integer z =>
    simp only [valueText?] at h
    split at h
    case isTrue hrange =>
      obtain rfl := Option.some.inj h
      simp only [Bool.and_eq_true, decide_eq_true_eq] at hrange
      have hz : (z.toNat : Int) = z := Int.toNat_of_nonneg hrange.1
      have hwrites := writes_digits (n := z.toNat) (by omega)
      rwa [hz] at hwrites
    case isFalse => cases h
  | real => cases h
  | moment => cases h
  | array => cases h
  | table => cases h

/-- The lines of fields are read as their assignments. -/
theorem written_pairLines {fields : List (String × Value)} {lines : List Char}
    (hnames : ∀ p ∈ fields, BareName p.1.toList) (h : pairLines? fields = some lines) :
    Written lines (Draft.assignments fields) := by
  induction fields generalizing lines with
  | nil =>
    obtain rfl := Option.some.inj h
    exact .nil
  | cons p fields ih =>
    obtain ⟨hname, hnames⟩ := List.forall_mem_cons.mp hnames
    simp only [pairLines?, Option.bind_eq_bind, Option.bind_eq_some_iff, Option.some.injEq] at h
    obtain ⟨value, hvalue, rest, hrest, rfl⟩ := h
    have hline := line_assign hname (writes_of_valueText? hvalue)
    rw [String.ofList_toList] at hline
    exact .line hline (ih hnames hrest)

/-- A table as it is written: one of its own, or an item of an array. -/
structure Block where
  isItem : Bool
  key : String
  fields : List (String × Value)

namespace Block

/-- The header of a table. -/
def header (b : Block) : String := if b.isItem then "[[" ++ b.key ++ "]]" else "[" ++ b.key ++ "]"

/-- The statements of a table. -/
def statements (b : Block) : List Statement :=
  if b.isItem then Draft.itemStatements b.key b.fields else Draft.tableStatements b.key b.fields

/-- A table that can be written. -/
structure Plain (b : Block) : Prop where
  key : BareName b.key.toList
  names : ∀ p ∈ b.fields, BareName p.1.toList
  values : ∀ p ∈ b.fields, (valueText? p.2).isSome

end Block

theorem pairLines?_isSome {fields : List (String × Value)}
    (h : ∀ p ∈ fields, (valueText? p.2).isSome) : ∃ lines, pairLines? fields = some lines := by
  induction fields with
  | nil => exact ⟨[], rfl⟩
  | cons p fields ih =>
    obtain ⟨hvalue, h⟩ := List.forall_mem_cons.mp h
    obtain ⟨value, hvalue⟩ := Option.isSome_iff_exists.mp hvalue
    obtain ⟨rest, hrest⟩ := ih h
    exact ⟨_, by rw [pairLines?, hvalue, hrest]; rfl⟩

theorem written_block {b : Block} (h : b.Plain) :
    ∃ text, blockText? (b.header, b.fields) = some text ∧ Written text b.statements := by
  obtain ⟨lines, hlines⟩ := pairLines?_isSome h.values
  have hwritten := written_pairLines h.names hlines
  refine ⟨_, by rw [blockText?, hlines, Option.map_some], ?_⟩
  unfold Block.header Block.statements
  split
  · have hline := line_arrayHeader h.key
    rw [String.ofList_toList] at hline
    have hheader : ("[[" ++ b.key ++ "]]").toList = '[' :: '[' :: b.key.toList ++ [']', ']'] := by
      simp
    rw [hheader]
    exact .line hline hwritten
  · have hline := line_header h.key
    rw [String.ofList_toList] at hline
    have hheader : ("[" ++ b.key ++ "]").toList = '[' :: b.key.toList ++ [']'] := by simp
    rw [hheader]
    exact .line hline hwritten

theorem written_blocks {bs : List Block} (h : ∀ b ∈ bs, b.Plain) :
    ∃ texts, (bs.map fun b => (b.header, b.fields)).mapM blockText? = some texts ∧
      Written (List.intercalate ['\n'] texts) (bs.flatMap Block.statements) := by
  induction bs with
  | nil => exact ⟨[], rfl, .nil⟩
  | cons b bs ih =>
    obtain ⟨hb, h⟩ := List.forall_mem_cons.mp h
    obtain ⟨text, htext, hwritten⟩ := written_block hb
    obtain ⟨texts, htexts, hlater⟩ := ih h
    refine ⟨text :: texts, ?_, ?_⟩
    · rw [List.map_cons, List.mapM_cons, htext, htexts]
      rfl
    · rw [List.flatMap_cons]
      cases texts with
      | nil =>
        have hempty : List.intercalate ['\n'] [text] = text := by simp
        rw [hempty, ← List.append_nil text]
        exact hwritten.append hlater
      | cons second texts =>
        rw [List.intercalate_cons_cons, List.append_assoc]
        exact hwritten.append (.gap hlater)

/-! ## Tables -/

/-- The tables of the sections that are there. -/
def sections (c : Config) : List (String × List (String × Value)) :=
  c.workspace.toList.map (fun w => ("workspace", workspacePairs w))
    ++ c.runner.toList.map (fun r => ("runner", runnerPairs r))
    ++ c.triggers.toList.map (fun t => ("triggers", triggersPairs t))
    ++ c.logging.toList.map (fun l => ("logging", loggingPairs l))

/-- The tables of a configuration. -/
def sheet (c : Config) : List Block :=
  c.sections.map (fun s => ⟨false, s.1, s.2⟩)
    ++ c.mappings.map fun m => ⟨true, "mappings", mappingPairs m⟩

theorem blocks_eq (c : Config) : c.blocks = c.sheet.map fun b => (b.header, b.fields) := by
  simp only [blocks, sheet, sections, List.map_append, List.map_map]
  rfl

theorem statements_sheet (c : Config) : c.sheet.flatMap Block.statements =
    (c.sections.flatMap fun s => Draft.tableStatements s.1 s.2)
      ++ (c.mappings.map mappingPairs).flatMap (Draft.itemStatements "mappings") := by
  simp only [sheet, List.flatMap_append, List.flatMap_map]
  rfl

/-- Names in order, some of them left out. -/
def Named (names : List String) (fields : List (String × α)) : Prop :=
  (fields.map (·.1)).Sublist names

theorem Named.append {names others : List String} {fields rest : List (String × α)}
    (h : Named names fields) (hrest : Named others rest) :
    Named (names ++ others) (fields ++ rest) := by
  unfold Named
  rw [List.map_append]
  exact List.Sublist.append h hrest

theorem named_optional (name : String) (f : β → α) (o : Option β) :
    Named [name] (o.toList.map fun b => (name, f b)) := by
  cases o with
  | none => exact List.nil_sublist _
  | some b => exact List.Sublist.refl _

theorem Named.mem {names : List String} {fields : List (String × α)} (h : Named names fields)
    {p : String × α} (hp : p ∈ fields) : p.1 ∈ names :=
  h.subset (List.mem_map_of_mem hp)

theorem Named.distinct {names : List String} {fields : List (String × α)} (h : Named names fields)
    (hnames : names.Pairwise (· ≠ ·)) : fields.Pairwise fun p q => p.1 ≠ q.1 :=
  List.pairwise_map.mp (hnames.sublist h)

/-- The names of the fields of all tables. -/
def fieldNames : List (List String) :=
  [["root", "pipelines_dir"], ["dry_run"], triggersFields, ["level", "file", "dir"],
    ["capability", "command", "provider", "target", "type"]]

theorem fieldNames_plain : ∀ names ∈ fieldNames,
    names.Pairwise (· ≠ ·) ∧ ∀ name ∈ names, BareName name.toList := by
  decide +kernel

theorem named_sections (c : Config) :
    Named ["workspace", "runner", "triggers", "logging"] c.sections :=
  (((named_optional ..).append (named_optional ..)).append (named_optional ..)).append
    (named_optional ..)

theorem named_loggingPairs (l : LoggingConfig) :
    Named ["level", "file", "dir"] (loggingPairs l) := by
  have hfirst : Named ["level", "file"] [("level", Value.text l.level), ("file", .truth l.file)] :=
    List.Sublist.refl _
  exact hfirst.append (named_optional ..)

theorem named_mappingPairs (m : MappingConfig) :
    Named ["capability", "command", "provider", "target", "type"] (mappingPairs m) := by
  have hfirst : Named ["capability", "command"]
      [("capability", Value.text m.capability), ("command", .text m.command)] := List.Sublist.refl _
  exact ((hfirst.append (named_optional ..)).append (named_optional ..)).append
    (named_optional ..)

theorem mappingNames_mem :
    ["capability", "command", "provider", "target", "type"] ∈ fieldNames := by
  decide

theorem named_fields {s : String × List (String × Value)} (h : s ∈ c.sections) :
    ∃ names ∈ fieldNames, Named names s.2 := by
  simp only [sections, List.mem_append, List.mem_map, Option.mem_toList] at h
  rcases h with ((⟨w, -, rfl⟩ | ⟨r, -, rfl⟩) | ⟨t, -, rfl⟩) | ⟨l, -, rfl⟩
  · exact ⟨_, .head _, (named_optional ..).append (List.Sublist.refl _)⟩
  · exact ⟨_, .tail _ (.head _), List.Sublist.refl _⟩
  · exact ⟨_, .tail _ (.tail _ (.head _)), List.Sublist.refl _⟩
  · exact ⟨_, .tail _ (.tail _ (.tail _ (.head _))), named_loggingPairs l⟩

/-! ## Sound configurations -/

/-- The numbers of a triggers section are in range, those without a narrower one within 63 bits,
and its header has a name. -/
structure TriggersSound (t : TriggersConfig) : Prop where
  port : t.webhookPort < 0x10000
  depth : t.maxChainDepth < 0x100000000
  cooldown : t.defaultCooldown < 0x8000000000000000
  debounce : t.defaultDebounce < 0x8000000000000000
  refresh : t.refreshDebounce < 0x8000000000000000
  header : Text.blank t.secretHeader = false

/-- A configuration that may be used and that the format can hold. -/
structure Sound (c : Config) : Prop where
  triggers : ∀ t ∈ c.triggers, TriggersSound t
  mappings : ∀ m ∈ c.mappings, usable m = true

theorem valueText?_natCast {n : Nat} (h : n < 0x8000000000000000) :
    (valueText? (.integer n)).isSome := by
  simp only [valueText?]
  rw [if_pos]
  · rfl
  · simp only [Bool.and_eq_true, decide_eq_true_eq]
    omega

theorem triggersPairs_writable {t : TriggersConfig} (h : TriggersSound t) :
    ∀ p ∈ triggersPairs t, (valueText? p.2).isSome := by
  have hport : t.webhookPort < 0x8000000000000000 := Nat.lt_trans h.port (by decide)
  have hdepth : t.maxChainDepth < 0x8000000000000000 := Nat.lt_trans h.depth (by decide)
  refine List.forall_mem_cons.mpr ⟨rfl, List.forall_mem_cons.mpr ⟨rfl, ?_⟩⟩
  refine List.forall_mem_cons.mpr ⟨valueText?_natCast hport, List.forall_mem_cons.mpr ⟨rfl, ?_⟩⟩
  refine List.forall_mem_cons.mpr ⟨valueText?_natCast hdepth, ?_⟩
  refine List.forall_mem_cons.mpr ⟨valueText?_natCast h.cooldown, ?_⟩
  refine List.forall_mem_cons.mpr ⟨valueText?_natCast h.debounce, ?_⟩
  exact List.forall_mem_cons.mpr ⟨valueText?_natCast h.refresh, fun _ hp => nomatch hp⟩

theorem plain_sheet (h : c.Sound) : ∀ b ∈ c.sheet, b.Plain := by
  intro b hb
  rcases List.mem_append.mp hb with hsection | hmapping
  · obtain ⟨s, hs, rfl⟩ := List.mem_map.mp hsection
    have hkey := (named_sections c).mem hs
    obtain ⟨names, hnames, hnamed⟩ := named_fields hs
    refine ⟨?_, fun p hp => (fieldNames_plain names hnames).2 _ (hnamed.mem hp), ?_⟩
    · revert hkey
      exact (by decide +kernel : ∀ key ∈ ["workspace", "runner", "triggers", "logging"],
        BareName key.toList) s.1
    · simp only [sections, List.mem_append, List.mem_map, Option.mem_toList] at hs
      rcases hs with ((⟨w, -, rfl⟩ | ⟨r, -, rfl⟩) | ⟨t, ht, rfl⟩) | ⟨l, -, rfl⟩
      · intro p hp
        simp only [workspacePairs, List.mem_append, List.mem_map, List.mem_singleton] at hp
        rcases hp with ⟨root, -, rfl⟩ | rfl <;> rfl
      · exact List.forall_mem_cons.mpr ⟨rfl, fun _ hp => nomatch hp⟩
      · exact triggersPairs_writable (h.triggers t ht)
      · intro p hp
        simp only [loggingPairs, List.mem_append, List.mem_map, List.mem_cons, List.not_mem_nil,
          or_false] at hp
        rcases hp with (rfl | rfl) | ⟨dir, -, rfl⟩ <;> rfl
  · obtain ⟨m, -, rfl⟩ := List.mem_map.mp hmapping
    have hkey : BareName "mappings".toList := by decide +kernel
    have hnames := (fieldNames_plain _ mappingNames_mem).2
    refine ⟨hkey, fun p hp => hnames p.1 ((named_mappingPairs m).mem hp), fun p hp => ?_⟩
    simp only [mappingPairs, presentPair, List.mem_append, List.mem_map, List.mem_cons,
      List.not_mem_nil, or_false] at hp
    rcases hp with (((rfl | rfl) | ⟨v, -, rfl⟩) | ⟨v, -, rfl⟩) | ⟨v, -, rfl⟩ <;> rfl

/-- The fields of a configuration as they are written. -/
def written (c : Config) : List (String × Value) :=
  c.sections.map (fun s => (s.1, .table s.2))
    ++ if c.mappings.isEmpty then []
      else [("mappings", .array (c.mappings.map fun m => .table (mappingPairs m)))]

theorem parse?_toToml (h : c.Sound) :
    ∃ text, c.toToml = .ok text ∧ Toml.parse? text = some c.written := by
  obtain ⟨texts, htexts, hwritten⟩ := written_blocks (plain_sheet h)
  refine ⟨String.ofList (List.intercalate ['\n'] texts), ?_, ?_⟩
  · rw [toToml, blocks_eq, htexts]
  rw [statements_sheet] at hwritten
  have hkeys := (named_sections c).distinct (by decide)
  have hmapping : ∀ s ∈ c.sections, "mappings" ≠ s.1 := by
    intro s hs heq
    have hmem := (named_sections c).mem hs
    rw [← heq] at hmem
    exact absurd hmem (by decide)
  have hsections : ∀ s ∈ c.sections, Draft.Distinct s.2 := by
    intro s hs
    obtain ⟨names, hnames, hnamed⟩ := named_fields hs
    exact hnamed.distinct (fieldNames_plain names hnames).1
  have hitems : ∀ fields ∈ c.mappings.map mappingPairs, Draft.Distinct fields := by
    intro fields hfields
    obtain ⟨m, -, rfl⟩ := List.mem_map.mp hfields
    exact (named_mappingPairs m).distinct (fieldNames_plain _ mappingNames_mem).1
  rw [parse?_document hwritten hkeys hmapping hsections hitems, written, List.isEmpty_map,
    List.map_map]
  rfl

/-! ## Reading -/

theorem lookup_optional (name key : String) (f : β → α) (o : Option β)
    (rest : List (String × α)) :
    (o.toList.map (fun b => (name, f b)) ++ rest).lookup key =
      if key == name then (o.map f).or (rest.lookup key) else rest.lookup key := by
  cases o with
  | none => simp
  | some b => by_cases h : key == name <;> simp [List.lookup_cons, h]

theorem lookup_optional_last (name key : String) (f : β → α) (o : Option β) :
    (o.toList.map (fun b => (name, f b))).lookup key =
      if key == name then o.map f else none := by
  have h := lookup_optional name key f o []
  rw [List.append_nil] at h
  rw [h]
  simp

theorem optional_text (o : Option String) : optional text? (o.map .text) = some o := by
  cases o <;> rfl

theorem readWorkspace_pairs (w : WorkspaceConfig) :
    readWorkspace (.table (workspacePairs w)) = some w := by
  have hfields : fieldsIn ["root", "pipelines_dir"] (.table (workspacePairs w)) =
      some [w.root.map .text, some (.text w.pipelinesDir)] := by
    simp [fieldsIn, workspacePairs, lookup_optional, List.lookup_cons]
  rw [readWorkspace, hfields]
  simp [optional_text, orDefault, text?]

theorem readRunner_pairs (r : RunnerConfig) : readRunner (.table (runnerPairs r)) = some r := rfl

theorem orDefault_natCast {bound n : Nat} (h : n < bound) (default : Nat) :
    orDefault default (natBelow? bound) (some (.integer n)) = some n := by
  have hread : natBelow? bound (.integer n) = some n := by simp [natBelow?, h]
  exact hread

theorem readTriggers_pairs {t : TriggersConfig} (h : TriggersSound t) :
    readTriggers (.table (triggersPairs t)) = some t := by
  have hfields : fieldsIn triggersFields (.table (triggersPairs t)) =
      some ((triggersPairs t).map fun p => some p.2) := rfl
  have hwide : ∀ {n : Nat}, n < 0x8000000000000000 → n < 0x10000000000000000 :=
    fun hn => Nat.lt_trans hn (by decide)
  rw [readTriggers, hfields]
  -- the fields one by one, so that no bound is ever computed with
  refine Option.bind_eq_some_iff.mpr ⟨t.enabled, rfl, ?_⟩
  refine Option.bind_eq_some_iff.mpr ⟨t.webhookHost, rfl, ?_⟩
  refine Option.bind_eq_some_iff.mpr ⟨t.webhookPort, orDefault_natCast h.port _, ?_⟩
  refine Option.bind_eq_some_iff.mpr ⟨t.secretHeader, rfl, ?_⟩
  refine Option.bind_eq_some_iff.mpr ⟨t.maxChainDepth, orDefault_natCast h.depth _, ?_⟩
  refine Option.bind_eq_some_iff.mpr ⟨_, orDefault_natCast (hwide h.cooldown) _, ?_⟩
  refine Option.bind_eq_some_iff.mpr ⟨_, orDefault_natCast (hwide h.debounce) _, ?_⟩
  exact Option.bind_eq_some_iff.mpr ⟨_, orDefault_natCast (hwide h.refresh) _, rfl⟩

theorem readLogging_pairs (l : LoggingConfig) :
    readLogging (.table (loggingPairs l)) = some l := by
  have hfields : fieldsIn ["level", "file", "dir"] (.table (loggingPairs l)) =
      some [some (.text l.level), some (.truth l.file), l.dir.map .text] := by
    simp [fieldsIn, loggingPairs, lookup_optional_last, List.lookup_cons]
  rw [readLogging, hfields]
  simp [optional_text, orDefault, text?, truth?]

theorem readMapping_pairs (m : MappingConfig) :
    readMapping (.table (mappingPairs m)) = some m := by
  have hfields : fieldsIn ["capability", "command", "provider", "target", "type"]
      (.table (mappingPairs m)) = some [some (.text m.capability), some (.text m.command),
        m.provider.map .text, m.target.map .text, m.kind.map .text] := by
    simp [fieldsIn, mappingPairs, presentPair, lookup_optional, lookup_optional_last,
      List.lookup_cons]
  rw [readMapping, hfields]
  simp [optional_text, text?]

theorem readMappings_pairs (ms : List MappingConfig) :
    readMappings (.array (ms.map fun m => .table (mappingPairs m))) = some ms := by
  induction ms with
  | nil => rfl
  | cons m ms ih =>
    simp only [readMappings] at ih ⊢
    rw [List.map_cons, List.mapM_cons, readMapping_pairs, ih]
    rfl

theorem lookup_tables (fields : List (String × List (String × Value))) (key : String) :
    (fields.map fun s => (s.1, Value.table s.2)).lookup key = (fields.lookup key).map .table := by
  induction fields with
  | nil => rfl
  | cons s fields ih =>
    rw [List.map_cons, List.lookup_cons, List.lookup_cons, ih]
    split <;> rfl

theorem lookup_written (key : String) : c.written.lookup key =
    ((c.sections.lookup key).map .table).or (if c.mappings.isEmpty then none
      else if key == "mappings" then
        some (.array (c.mappings.map fun m => .table (mappingPairs m))) else none) := by
  rw [written, List.lookup_append, lookup_tables]
  by_cases hempty : c.mappings.isEmpty <;> by_cases hkey : key == "mappings" <;>
    simp [hempty, hkey, List.lookup_cons]

theorem optional_section {f : α → List (String × Value)} {read : Value → Option α} {o : Option α}
    (h : ∀ a ∈ o, read (.table (f a)) = some a) : optional read (o.map (.table ∘ f)) = some o := by
  cases o with
  | none => rfl
  | some a => exact congrArg (Option.map some) (h a rfl)

/-- **What is written is read as it was.** -/
theorem ofFields?_written (h : c.Sound) : ofFields? c.written = some c := by
  have hworkspace : c.written.lookup "workspace" = c.workspace.map (.table ∘ workspacePairs) := by
    simp [lookup_written, sections, lookup_optional, lookup_optional_last]
  have hrunner : c.written.lookup "runner" = c.runner.map (.table ∘ runnerPairs) := by
    simp [lookup_written, sections, lookup_optional, lookup_optional_last]
  have htriggers : c.written.lookup "triggers" = c.triggers.map (.table ∘ triggersPairs) := by
    simp [lookup_written, sections, lookup_optional, lookup_optional_last]
  have hlogging : c.written.lookup "logging" = c.logging.map (.table ∘ loggingPairs) := by
    simp [lookup_written, sections, lookup_optional, lookup_optional_last]
  have hmappings : orDefault [] readMappings (c.written.lookup "mappings") = some c.mappings := by
    have hlookup : c.written.lookup "mappings" = if c.mappings.isEmpty then none
        else some (.array (c.mappings.map fun m => .table (mappingPairs m))) := by
      simp [lookup_written, sections, lookup_optional, lookup_optional_last]
    rw [hlookup]
    split
    case isTrue hempty =>
      rw [List.isEmpty_iff.mp hempty]
      rfl
    case isFalse => exact readMappings_pairs c.mappings
  have hread := optional_section fun t ht => readTriggers_pairs (h.triggers t ht)
  unfold ofFields?
  rw [hworkspace, hrunner, htriggers, hlogging, hmappings, hread,
    optional_section fun w _ => readWorkspace_pairs w,
    optional_section fun r _ => readRunner_pairs r,
    optional_section fun l _ => readLogging_pairs l]
  rfl

end Config

end Workflow
