import Workflow.Config.Layers
import Workflow.Proofs.ConfigTables
import Workflow.Proofs.FileTrees
import Workflow.Proofs.Octets
import Workflow.Proofs.TomlIntegers

/- Configurations are kept by files (`reloads_of_obtained`). What is read from a text is sound,
   since the reader takes no number that the writer could not write (`sound_of_parse`), and merging
   keeps that; what is sound is written and read as it was (`parse_written`), and a file that was
   written has the text. -/
namespace Workflow

open Toml

namespace Config

variable {c later : Config}

/-! ## What is read is sound -/

theorem fault?_eq_none_iff : c.fault? = none ↔
    (∀ t ∈ c.triggers, Text.blank t.secretHeader = false) ∧ ∀ m ∈ c.mappings, usable m = true := by
  unfold fault?
  cases htriggers : c.triggers with
  | none => simp [List.findIdx?_eq_none_iff]
  | some t => cases hblank : Text.blank t.secretHeader <;> simp [List.findIdx?_eq_none_iff, hblank]

theorem validate_eq_ok_iff : c.validate = .ok () ↔ c.fault? = none := by
  unfold validate
  cases c.fault? <;> simp

/-- The configuration that a text says, valid or not. -/
def ofText? (text : String) : Option Config := (Toml.parse? text).bind ofFields?

theorem parse_of_malformed {text : String} (h : ofText? text = none) :
    parse text = .error .malformed := by
  rw [ofText?] at h
  rw [parse, h]

theorem parse_of_text {text : String} (h : ofText? text = some c) :
    parse text = c.validate.map fun _ => c := by
  rw [ofText?] at h
  rw [parse, h]

theorem parse_eq_ok_iff {text : String} : parse text = .ok c ↔
    (∃ fields, Toml.parse? text = some fields ∧ ofFields? fields = some c) ∧ c.fault? = none := by
  rw [← Option.bind_eq_some_iff, ← validate_eq_ok_iff, ← ofText?]
  cases htext : ofText? text with
  | none => simp [parse_of_malformed htext]
  | some d =>
    rw [parse_of_text htext]
    cases hvalid : d.validate with
    | error e =>
      constructor
      · rintro ⟨⟩
      · rintro ⟨⟨⟩, hok⟩
        rw [hvalid] at hok
        cases hok
    | ok =>
      constructor
      · rintro ⟨⟩
        exact ⟨rfl, hvalid⟩
      · rintro ⟨⟨⟩, -⟩
        rfl

/-- The values of the fields of a section are small where the section's are. -/
theorem fits_of_fieldsIn {names : List String} {v : Value} {fields : List (Option Value)}
    (hv : v.Fits) (h : fieldsIn names v = some fields) : ∀ o ∈ fields, ∀ w ∈ o, w.Fits := by
  cases hv with
  | table each =>
    obtain rfl := Option.some.inj h
    intro o ho w hw
    obtain ⟨name, -, rfl⟩ := List.mem_map.mp ho
    obtain ⟨front, later, rfl, -⟩ := List.lookup_eq_some_iff.mp (Option.mem_def.mp hw)
    exact each (name, w) (List.mem_append_right _ List.mem_cons_self)
  | array each =>
    obtain rfl := Option.some.inj h
    intro o ho w hw
    obtain ⟨i, -, rfl⟩ := List.mem_map.mp ho
    exact each w (List.mem_of_getElem? hw)
  | moment =>
    obtain rfl := Option.some.inj h
    intro o ho w hw
    obtain ⟨name, -, rfl⟩ := List.mem_map.mp ho
    cases hw
  | text => cases h
  | integer => cases h
  | real => cases h
  | truth => cases h

theorem natBelow?_eq_some {bound n : Nat} {v : Value} (h : natBelow? bound v = some n) :
    v = .integer n ∧ n < bound := by
  unfold natBelow? at h
  split at h
  · split at h
    case isTrue hrange =>
      obtain rfl := Option.some.inj h
      simp only [Bool.and_eq_true, decide_eq_true_eq] at hrange
      exact ⟨congrArg Value.integer (Int.toNat_of_nonneg hrange.1).symm, by omega⟩
    case isFalse => cases h
  · cases h

theorem lt_of_orDefault {bound default n : Nat} {o : Option Value} (hdefault : default < bound)
    (h : orDefault default (natBelow? bound) o = some n) : n < bound := by
  cases o with
  | none =>
    obtain rfl := Option.some.inj h
    exact hdefault
  | some v => exact (natBelow?_eq_some h).2

/-- A number without a bound of its own is within those of the values that are read. -/
theorem lt_of_fits {bound default n : Nat} {o : Option Value}
    (hdefault : default < 0x8000000000000000) (ho : ∀ v ∈ o, v.Fits)
    (h : orDefault default (natBelow? bound) o = some n) : n < 0x8000000000000000 := by
  cases o with
  | none =>
    obtain rfl := Option.some.inj h
    exact hdefault
  | some v =>
    obtain ⟨rfl, -⟩ := natBelow?_eq_some h
    cases ho _ rfl with
    | integer lower upper => omega

theorem triggersSound_of_readTriggers {v : Value} {t : TriggersConfig} (hv : v.Fits)
    (h : readTriggers v = some t) (hheader : Text.blank t.secretHeader = false) :
    TriggersSound t := by
  simp only [readTriggers] at h
  split at h
  case h_1 enabled host port header depth cooldown debounce refresh hfields =>
    have hfits := fits_of_fieldsIn hv hfields
    simp only [List.forall_mem_cons] at hfits
    obtain ⟨-, -, -, -, -, hcooldown, hdebounce, hrefresh, -⟩ := hfits
    simp only [Option.bind_eq_bind, Option.bind_eq_some_iff, Option.some.injEq] at h
    obtain ⟨_, -, _, -, _, hport, _, -, _, hdepth, _, hread, _, hread', _, hread'', rfl⟩ := h
    constructor
    case port => exact lt_of_orDefault (by decide) hport
    case depth => exact lt_of_orDefault (by decide) hdepth
    case cooldown => exact lt_of_fits (by decide) hcooldown hread
    case debounce => exact lt_of_fits (by decide) hdebounce hread'
    case refresh => exact lt_of_fits (by decide) hrefresh hread''
    case header => exact hheader
  case h_2 => cases h

theorem sound_of_parse {text : String} (h : parse text = .ok c) : c.Sound := by
  obtain ⟨⟨fields, hparse, hfields⟩, hfault⟩ := parse_eq_ok_iff.mp h
  obtain ⟨hheader, husable⟩ := fault?_eq_none_iff.mp hfault
  refine ⟨fun t ht => ?_, husable⟩
  simp only [ofFields?, Option.bind_eq_bind, Option.bind_eq_some_iff, Option.some.injEq] at hfields
  obtain ⟨_, -, _, -, triggers, htriggers, _, -, _, -, rfl⟩ := hfields
  obtain rfl : triggers = some t := ht
  cases hlookup : fields.lookup "triggers" with
  | none =>
    rw [hlookup] at htriggers
    cases htriggers
  | some v =>
    rw [hlookup] at htriggers
    obtain ⟨t', hread, heq⟩ := Option.map_eq_some_iff.mp htriggers
    obtain rfl := Option.some.inj heq
    obtain ⟨front, later, rfl, -⟩ := List.lookup_eq_some_iff.mp hlookup
    have hv := fits_of_parse? hparse ("triggers", v) (List.mem_append_right _ List.mem_cons_self)
    exact triggersSound_of_readTriggers hv hread (hheader t' rfl)

theorem Sound.merge (h : c.Sound) (hlater : later.Sound) : (c.merge later).Sound where
  triggers t ht := by
    cases htriggers : later.triggers with
    | none => exact h.triggers t (by simpa [Config.merge, htriggers] using ht)
    | some t' => exact hlater.triggers t (by simpa [Config.merge, htriggers] using ht)
  mappings m hm := by
    rcases List.mem_append.mp hm with hfirst | hsecond
    · exact h.mappings m hfirst
    · exact hlater.mappings m hsecond

/-- Configurations that are read from texts, and what such are merged to. -/
inductive Obtained : Config → Prop where
  | parsed {text : String} {c : Config} (read : parse text = .ok c) : Obtained c
  | merged {c later : Config} (first : Obtained c) (second : Obtained later) :
      Obtained (c.merge later)

theorem sound_of_obtained (h : Obtained c) : c.Sound := by
  induction h with
  | parsed read => exact sound_of_parse read
  | merged _ _ hfirst hsecond => exact hfirst.merge hsecond

theorem parse_written (h : c.Sound) : ∃ text, c.toToml = .ok text ∧ parse text = .ok c := by
  obtain ⟨text, htext, hparse⟩ := parse?_toToml h
  have hfault := fault?_eq_none_iff.mpr ⟨fun t ht => (h.triggers t ht).header, h.mappings⟩
  exact ⟨text, htext, parse_eq_ok_iff.mpr ⟨⟨c.written, hparse, ofFields?_written h⟩, hfault⟩⟩

end Config

/-! ## Files -/

/-- The tree with the directories to a path made. -/
def FileTree.prepared? (tree : FileTree) (path : String) : Option FileTree :=
  match Path.parent? path with
  | none => some tree
  | some dir => tree.makeDirectories? dir

/-- A path at which a file can be written: the directories to it can be made, and then its last
part names no directory. -/
def FileTree.Writable (tree : FileTree) (path : String) : Prop :=
  ∃ ready place, tree.prepared? path = some ready ∧ ready.resolve path = some place ∧
    ready.directoryAt place.dropLast = true ∧ ready.directoryAt place = false

namespace Config

variable {c : Config} {tree tree' : FileTree} {path : String}

theorem save_eq_ok_iff : save tree c path = .ok tree' ↔ ∃ ready text,
    tree.prepared? path = some ready ∧ c.toToml = .ok text ∧
      ready.write? path (Text.encode text) = some tree' := by
  unfold save FileTree.prepared?
  cases htext : c.toToml with
  | error e =>
    cases Path.parent? path with
    | none => simp [bind, Except.bind]
    | some dir => cases hmade : tree.makeDirectories? dir <;> simp [bind, Except.bind, hmade]
  | ok text =>
    cases Path.parent? path with
    | none =>
      cases hput : tree.write? path (Text.encode text) <;> simp [bind, Except.bind, hput]
    | some dir =>
      cases hmade : tree.makeDirectories? dir with
      | none => simp [bind, Except.bind, hmade]
      | some ready =>
        cases hput : ready.write? path (Text.encode text) <;>
          simp [bind, Except.bind, hmade, hput]

/-- A configuration that is kept by writing it. -/
structure Reloads (c : Config) : Prop where
  /-- It can be written, and the text is read as the same configuration. -/
  text : ∃ text, c.toToml = .ok text ∧ parse text = .ok c
  /-- Where it has been saved, it is loaded again. -/
  saved {tree tree' : FileTree} {path : String} (save : c.save tree path = .ok tree') :
    load tree' path = .ok c
  /-- It can be saved wherever a file can be written. -/
  writable {tree : FileTree} {path : String} (place : tree.Writable path) :
    ∃ tree', c.save tree path = .ok tree'

/-- **Configurations are kept by files**: one that was read, or merged from such, can be written,
and what is written is read as the same configuration, with the sections, the fields and the
mappings it had. -/
theorem reloads_of_obtained (h : Obtained c) : Reloads c := by
  obtain ⟨text, htext, hparse⟩ := parse_written (sound_of_obtained h)
  constructor
  case text => exact ⟨text, htext, hparse⟩
  case saved =>
    intro tree tree' path hsave
    obtain ⟨ready, text', -, htext', hwrite⟩ := save_eq_ok_iff.mp hsave
    obtain rfl : text = text' := Except.ok.inj (htext.symm.trans htext')
    rw [load, FileTree.readText?, FileTree.content?_write? hwrite, Option.bind_some,
      Text.decode?_encode]
    exact hparse
  case writable =>
    rintro tree path ⟨ready, place, hready, hplace, hway, hfree⟩
    exact ⟨_, save_eq_ok_iff.mpr ⟨ready, text, hready, htext,
      FileTree.write?_eq_some_iff.mpr ⟨place, hplace, hway, hfree, rfl⟩⟩⟩

theorem parse_of_toOption {text : String} (h : (parse text).toOption = some c) :
    parse text = .ok c := by
  cases hparse : parse text with
  | error e =>
    rw [hparse] at h
    cases h
  | ok d =>
    rw [hparse] at h
    exact congrArg Except.ok (Option.some.inj h)

/-- A user's configuration: a section without fields, and strings that have to be escaped. -/
def userText : String :=
  "[runner]\n[triggers]\nwebhook_port = 0\n\n[[mappings]]\ncapability = \"a\\tb\"\n" ++
    "command = 'c:\\d'\ntype = \"external\"\n"

/-- A project's configuration: a section in the form of an array, and the greatest number. -/
def projectText : String :=
  "workspace = [\"it's\\n\\\\new\"]\n[triggers]\n" ++
    "default_cooldown_ms = 9_223_372_036_854_775_807\n" ++
    "[[mappings]]\ncapability = \"x\"\ncommand = \"y\"\nprovider = \"\"\n"

/-- What the user's text says. -/
def userLayer : Config where
  runner := some {}
  triggers := some { webhookPort := 0 }
  mappings := [{ capability := "a\tb", command := "c:\\d", kind := some "external" }]

/-- What the project's text says. -/
def projectLayer : Config where
  workspace := some { root := some "it's\n\\new" }
  triggers := some { defaultCooldown := 0x7fffffffffffffff }
  mappings := [{ capability := "x", command := "y", provider := some "" }]

/-- A project's configuration over a user's reloads, also from a directory that is made for it. -/
theorem layers_reload :
    parse userText = .ok userLayer ∧ parse projectText = .ok projectLayer ∧
    Reloads (userLayer.merge projectLayer) ∧
    ∃ tree, save .empty (userLayer.merge projectLayer) "conf/flowline.toml" = .ok tree ∧
      load tree "conf/flowline.toml" = .ok (userLayer.merge projectLayer) := by
  have huser : parse userText = .ok userLayer := parse_of_toOption (by decide +kernel)
  have hproject : parse projectText = .ok projectLayer := parse_of_toOption (by decide +kernel)
  have hreloads := reloads_of_obtained (.merged (.parsed huser) (.parsed hproject))
  have hplace : FileTree.Writable .empty "conf/flowline.toml" :=
    ⟨{ entries := [(["conf"], .directory)] }, ["conf", "flowline.toml"], rfl,
      by decide +kernel, by decide +kernel, by decide +kernel⟩
  obtain ⟨tree, hsave⟩ := hreloads.writable hplace
  exact ⟨huser, hproject, hreloads, tree, hsave, hreloads.saved hsave⟩

end Config

end Workflow
