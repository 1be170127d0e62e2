import Mathlib.Logic.ExistsUnique
import Workflow.Cli.Program
import Workflow.Proofs.ConfigForms

/- How configurations are laid over one another. Merging is associative and an empty configuration
   changes nothing (`mergeLaws`), so that a list of layers has one merger: of each section it has
   that of the last layer with one, and it has all mappings in order (`merges`). Loading merges the
   layers whose files hold valid configurations, warns once of every other file and passes over the
   rest, one layer at a time (`addLayer_eq`); what it gives is valid, and the program never ends for
   its configuration (`configuration_of_layers`). -/
namespace Workflow

namespace Config

variable {c : Config} {layers : List Config}

/-! ## Merging -/

@[simp] theorem empty_merge (c : Config) : merge {} c = c := by
  simp [merge]

@[simp] theorem merge_empty (c : Config) : c.merge {} = c := by
  simp [merge]

theorem merge_assoc (a b c : Config) : (a.merge b).merge c = a.merge (b.merge c) := by
  simp [merge, Option.or_assoc]

instance : Std.Associative merge := ⟨merge_assoc⟩

/-- The laws of merging. -/
structure MergeLaws : Prop where
  /-- Which two of three layers are merged first makes no difference. -/
  associative : ∀ a b c : Config, (a.merge b).merge c = a.merge (b.merge c)
  /-- Whatever is laid over the empty configuration is left as it is. -/
  empty_below : ∀ c : Config, merge {} c = c
  /-- The empty configuration laid over another leaves it as it is. -/
  empty_above : ∀ c : Config, c.merge {} = c

theorem mergeLaws : MergeLaws := ⟨merge_assoc, empty_merge, merge_empty⟩

/-- What layers are merged to, each being laid over those before it. -/
def mergeAll (layers : List Config) : Config := layers.foldl merge {}

@[simp] theorem mergeAll_nil : mergeAll [] = {} := rfl

theorem foldl_merge (c : Config) (layers : List Config) :
    layers.foldl merge c = c.merge (mergeAll layers) := by
  calc layers.foldl merge c
      = layers.foldl merge (c.merge {}) := by rw [merge_empty]
    _ = c.merge (mergeAll layers) := List.foldl_assoc

@[simp] theorem mergeAll_cons (c : Config) (layers : List Config) :
    mergeAll (c :: layers) = c.merge (mergeAll layers) := by
  rw [mergeAll, List.foldl_cons, empty_merge, foldl_merge]

theorem mergeAll_append (below above : List Config) :
    mergeAll (below ++ above) = (mergeAll below).merge (mergeAll above) := by
  rw [mergeAll, List.foldl_append, foldl_merge]
  rfl

/-- Layers may be merged in groups. -/
theorem mergeAll_flatten (groups : List (List Config)) :
    mergeAll groups.flatten = mergeAll (groups.map mergeAll) := by
  induction groups with
  | nil => rfl
  | cons group groups ih =>
    calc mergeAll (group ++ groups.flatten)
        = (mergeAll group).merge (mergeAll groups.flatten) := mergeAll_append group groups.flatten
      _ = (mergeAll group).merge (mergeAll (groups.map mergeAll)) := by rw [ih]
      _ = mergeAll (mergeAll group :: groups.map mergeAll) := (mergeAll_cons _ _).symm

/-- A section of which the later layer's is taken is that of the last layer that has one. -/
theorem section_mergeAll {part : Config → Option α} (hempty : part {} = none)
    (hmerge : ∀ c later : Config, part (c.merge later) = (part later <|> part c))
    (layers : List Config) : part (mergeAll layers) = (layers.filterMap part).getLast? := by
  induction layers with
  | nil => exact hempty
  | cons c layers ih =>
    rw [mergeAll_cons, hmerge, ih]
    cases hpart : part c with
    | none => simp [hpart]
    | some a =>
      -- A section of a later layer hides this one.
      cases hlast : (layers.filterMap part).getLast? <;>
        simp [hpart, List.getLast?_cons, hlast]

theorem triggers_mergeAll (layers : List Config) :
    (mergeAll layers).triggers = (layers.filterMap (·.triggers)).getLast? :=
  section_mergeAll rfl (fun _ _ => rfl) layers

theorem mappings_mergeAll (layers : List Config) :
    (mergeAll layers).mappings = layers.flatMap (·.mappings) := by
  induction layers with
  | nil => rfl
  | cons c layers ih => rw [mergeAll_cons, List.flatMap_cons, ← ih, merge]

/-- When a configuration may be used: the header of secrets has a name, and every mapping names a
capability and a command. -/
structure Valid (c : Config) : Prop where
  header : ∀ t ∈ c.triggers, Text.blank t.secretHeader = false
  mappings : ∀ m ∈ c.mappings, Text.blank m.capability = false ∧ Text.blank m.command = false

theorem validate_iff_valid : c.validate = .ok () ↔ c.Valid := by
  rw [validate_eq_ok_iff, fault?_eq_none_iff]
  simp only [usable, Bool.and_eq_true, Bool.not_eq_true']
  exact ⟨fun h => ⟨h.1, h.2⟩, fun h => ⟨h.header, h.mappings⟩⟩

/-- What is merged of valid layers is valid: its triggers section is that of some layer, and so is
each of its mappings. -/
theorem valid_mergeAll (h : ∀ c ∈ layers, c.Valid) : (mergeAll layers).Valid := by
  constructor
  case header =>
    intro t ht
    rw [triggers_mergeAll] at ht
    obtain ⟨c, hc, hct⟩ := List.mem_filterMap.mp (List.mem_of_getLast? ht)
    exact (h c hc).header t hct
  case mappings =>
    intro m hm
    rw [mappings_mergeAll] at hm
    obtain ⟨c, hc, hcm⟩ := List.mem_flatMap.mp hm
    exact (h c hc).mappings m hcm

/-- What is merged of layers. -/
structure Merges (layers : List Config) (merged : Config) : Prop where
  /-- It is the same when neighbouring layers have been merged before. -/
  grouped : ∀ groups : List (List Config),
    groups.flatten = layers → mergeAll (groups.map mergeAll) = merged
  /-- Each section is that of the last layer which has it, whole. -/
  workspace : merged.workspace = (layers.filterMap (·.workspace)).getLast?
  runner : merged.runner = (layers.filterMap (·.runner)).getLast?
  triggers : merged.triggers = (layers.filterMap (·.triggers)).getLast?
  logging : merged.logging = (layers.filterMap (·.logging)).getLast?
  /-- The mappings are those of all layers, in order. -/
  mappings : merged.mappings = layers.flatMap (·.mappings)
  /-- It is valid if all of the layers are. -/
  valid : (∀ c ∈ layers, c.validate = .ok ()) → merged.validate = .ok ()

theorem merges (layers : List Config) : Merges layers (mergeAll layers) where
  grouped := by
    rintro groups rfl
    exact (mergeAll_flatten groups).symm
  workspace := section_mergeAll rfl (fun _ _ => rfl) layers
  runner := section_mergeAll rfl (fun _ _ => rfl) layers
  triggers := triggers_mergeAll layers
  logging := section_mergeAll rfl (fun _ _ => rfl) layers
  mappings := mappings_mergeAll layers
  valid h := validate_iff_valid.mpr <| valid_mergeAll fun c hc => validate_iff_valid.mp (h c hc)

end Config

/-! ## Files of layers -/

/-- What is found where a layer may be. -/
inductive Finding where
  /-- There is no file. -/
  | missing
  /-- There is a file, which cannot be used. -/
  | unusable (error : ConfigError)
  /-- There is the file of a valid configuration. -/
  | usable (config : Config)

/-- When something is found at a path. A directory is no file, and a file may be no text, a text no
configuration and a configuration not valid. -/
inductive Finding.At (tree : FileTree) (path : String) : Finding → Prop where
  | missing (nothing : ∀ octets, tree.entry? path ≠ some (.file octets)) : At tree path .missing
  | unreadable {octets : Text.Octets} (file : tree.entry? path = some (.file octets))
      (binary : Text.decode? octets = none) : At tree path (.unusable (.unreadable path))
  | malformed {octets : Text.Octets} {text : String}
      (file : tree.entry? path = some (.file octets)) (readable : Text.decode? octets = some text)
      (unparsed : Config.ofText? text = none) : At tree path (.unusable .malformed)
  | invalid {octets : Text.Octets} {text : String} {c : Config} {error : ConfigError}
      (file : tree.entry? path = some (.file octets)) (readable : Text.decode? octets = some text)
      (parsed : Config.ofText? text = some c) (invalid : c.validate = .error error) :
      At tree path (.unusable error)
  | valid {octets : Text.Octets} {text : String} {c : Config}
      (file : tree.entry? path = some (.file octets)) (readable : Text.decode? octets = some text)
      (parsed : Config.ofText? text = some c) (valid : c.Valid) : At tree path (.usable c)

/-- A layer that was looked for. -/
structure Layer where
  path : String
  finding : Finding

namespace Layer

/-- The configuration of the layer, if it may be used. -/
def config? (l : Layer) : Option Config :=
  match l.finding with
  | .usable c => some c
  | _ => none

/-- What is told of the layer: it is loaded if it may be used. -/
def source (l : Layer) : ConfigSource := ⟨l.path, l.config?.isSome⟩

/-- The warning of a layer that cannot be used although there is a file. -/
def warning? (l : Layer) : Option String :=
  match l.finding with
  | .unusable e => some s!"Failed to load {l.path}: {e.message}"
  | _ => none

theorem config?_eq_some_iff {l : Layer} {c : Config} :
    l.config? = some c ↔ l.finding = .usable c := by
  unfold config?
  cases l.finding <;> simp

end Layer

namespace Finding

variable {tree : FileTree} {path : String} {found found' : Finding} {octets : Text.Octets}
  {c : Config}

theorem exists_at (tree : FileTree) (path : String) : ∃ found : Finding, found.At tree path := by
  by_cases hfile : ∃ octets, tree.entry? path = some (.file octets)
  case neg => exact ⟨.missing, .missing (not_exists.mp hfile)⟩
  case pos =>
    obtain ⟨octets, hfile⟩ := hfile
    cases htext : Text.decode? octets with
    | none => exact ⟨_, .unreadable hfile htext⟩
    | some text =>
      cases hparsed : Config.ofText? text with
      | none => exact ⟨_, .malformed hfile htext hparsed⟩
      | some c =>
        cases hvalid : c.validate with
        | error e => exact ⟨_, .invalid hfile htext hparsed hvalid⟩
        | ok => exact ⟨_, .valid hfile htext hparsed (Config.validate_iff_valid.mp hvalid)⟩

/-! ## Loading -/

/-- What comes of reading a path, by what is found there. -/
def Read (tree : FileTree) (path : String) : Finding → Prop
  | .missing => tree.isFile path = false
  | .unusable e => tree.isFile path = true ∧ Config.load tree path = .error e
  | .usable c => tree.isFile path = true ∧ Config.load tree path = .ok c

theorem load_of_text {text : String} (hfile : tree.entry? path = some (.file octets))
    (htext : Text.decode? octets = some text) : Config.load tree path = Config.parse text := by
  have hcontent := FileTree.content?_eq_some_iff.mpr hfile
  rw [Config.load, FileTree.readText?, hcontent, Option.bind_some, htext]

theorem load_of_binary (hfile : tree.entry? path = some (.file octets))
    (hbinary : Text.decode? octets = none) :
    Config.load tree path = .error (.unreadable path) := by
  have hcontent := FileTree.content?_eq_some_iff.mpr hfile
  rw [Config.load, FileTree.readText?, hcontent, Option.bind_some, hbinary]

theorem At.read (h : found.At tree path) : found.Read tree path := by
  cases h with
  | missing nothing =>
    apply Bool.eq_false_iff.mpr
    intro hfile
    obtain ⟨octets, hfile⟩ := FileTree.isFile_iff.mp hfile
    exact nothing octets hfile
  | unreadable file binary =>
    exact ⟨FileTree.isFile_iff.mpr ⟨_, file⟩, load_of_binary file binary⟩
  | malformed file readable unparsed =>
    refine ⟨FileTree.isFile_iff.mpr ⟨_, file⟩, ?_⟩
    rw [load_of_text file readable, Config.parse_of_malformed unparsed]
  | invalid file readable parsed invalid =>
    refine ⟨FileTree.isFile_iff.mpr ⟨_, file⟩, ?_⟩
    rw [load_of_text file readable, Config.parse_of_text parsed, invalid]
    rfl
  | valid file readable parsed valid =>
    refine ⟨FileTree.isFile_iff.mpr ⟨_, file⟩, ?_⟩
    rw [load_of_text file readable, Config.parse_of_text parsed,
      Config.validate_iff_valid.mpr valid]
    rfl

theorem valid_of_at (h : (usable c).At tree path) : c.Valid := by
  cases h with
  | valid file readable parsed valid => exact valid

theorem Read.unique (h : found.Read tree path) (h' : found'.Read tree path) : found = found' := by
  cases found <;> cases found' <;> simp_all [Read]

end Finding

namespace LoadedConfig

variable {tree : FileTree} {l : Layer} {layers : List Layer}

/-- **One layer.** Only a layer that may be used changes the configuration. -/
theorem addLayer_eq (h : l.finding.At tree l.path) (loaded : LoadedConfig) :
    loaded.addLayer tree l.path = {
      config := loaded.config.merge (l.config?.getD {})
      sources := loaded.sources ++ [l.source]
      warnings := loaded.warnings ++ l.warning?.toList } := by
  have hread := h.read
  obtain ⟨path, found⟩ := l
  cases found with
  | missing =>
    have hfile : tree.isFile path = false := hread
    simp [addLayer, hfile, Layer.config?, Layer.source, Layer.warning?]
  | unusable e =>
    have ⟨hfile, hload⟩ : tree.isFile path = true ∧ Config.load tree path = .error e := hread
    simp [addLayer, hfile, hload, Layer.config?, Layer.source, Layer.warning?]
  | usable c =>
    have ⟨hfile, hload⟩ : tree.isFile path = true ∧ Config.load tree path = .ok c := hread
    simp [addLayer, hfile, hload, Layer.config?, Layer.source, Layer.warning?]

/-- What comes of loading the layers at paths. -/
structure Loads (tree : FileTree) (paths : List String) (layers : List Layer)
    (loaded : LoadedConfig) : Prop where
  /-- The layers are what is found at the paths, in order. -/
  paths : layers.map (·.path) = paths
  found : ∀ l ∈ layers, l.finding.At tree l.path
  /-- Those that may be used are merged, the first of them below all others. -/
  config : loaded.config = Config.mergeAll (layers.filterMap Layer.config?)
  /-- Each layer is a source, and those that were merged are the loaded ones. -/
  sources : loaded.sources = layers.map Layer.source
  /-- There is one warning of each that cannot be used although there is a file, and no other. -/
  warnings : loaded.warnings = layers.filterMap Layer.warning?
  /-- What is loaded is valid. -/
  valid : loaded.config.validate = .ok ()

theorem foldl_addLayer (h : ∀ l ∈ layers, l.finding.At tree l.path) (loaded : LoadedConfig) :
    (layers.map (·.path)).foldl (addLayer tree) loaded = {
      config := loaded.config.merge (Config.mergeAll (layers.filterMap Layer.config?))
      sources := loaded.sources ++ layers.map Layer.source
      warnings := loaded.warnings ++ layers.filterMap Layer.warning? } := by
  -- On the layers that are still to come, whatever has been loaded by then.
  induction layers generalizing loaded with
  | nil => simp
  | cons l layers ih =>
    obtain ⟨hl, hlayers⟩ := List.forall_mem_cons.mp h
    rw [List.map_cons, List.foldl_cons, addLayer_eq hl, ih hlayers]
    cases hconfig : l.config? <;> cases hwarning : l.warning? <;>
      simp [hconfig, hwarning, Config.merge_assoc]

theorem exists_layers (tree : FileTree) (paths : List String) : ∃ layers : List Layer,
    layers.map (·.path) = paths ∧ ∀ l ∈ layers, l.finding.At tree l.path := by
  induction paths with
  | nil => exact ⟨[], rfl, fun _ hl => nomatch hl⟩
  | cons path paths ih =>
    obtain ⟨layers, hpaths, hfound⟩ := ih
    obtain ⟨found, hat⟩ := Finding.exists_at tree path
    exact ⟨⟨path, found⟩ :: layers, congrArg (path :: ·) hpaths,
      List.forall_mem_cons.mpr ⟨hat, hfound⟩⟩

/-- Nothing else is found at the paths. -/
theorem layers_unique {others : List Layer} (hpaths : layers.map (·.path) = others.map (·.path))
    (h : ∀ l ∈ layers, l.finding.At tree l.path) (h' : ∀ l ∈ others, l.finding.At tree l.path) :
    layers = others := by
  induction layers generalizing others with
  | nil => exact (List.map_eq_nil_iff.mp hpaths.symm).symm
  | cons l layers ih =>
    cases others with
    | nil => cases hpaths
    | cons l' others =>
      obtain ⟨path, found⟩ := l
      obtain ⟨path', found'⟩ := l'
      obtain ⟨rfl, hrest⟩ := List.cons.inj hpaths
      obtain ⟨hl, hlayers⟩ := List.forall_mem_cons.mp h
      obtain ⟨hl', hothers⟩ := List.forall_mem_cons.mp h'
      obtain rfl : found = found' := hl.read.unique hl'.read
      rw [ih hrest hlayers hothers]

theorem loads_foldl (hfound : ∀ l ∈ layers, l.finding.At tree l.path) :
    Loads tree (layers.map (·.path)) layers
      ((layers.map (·.path)).foldl (addLayer tree) {}) := by
  rw [foldl_addLayer hfound]
  constructor
  case paths => rfl
  case found => exact hfound
  case config => exact Config.empty_merge _
  case sources => rfl
  case warnings => rfl
  case valid =>
    rw [Config.empty_merge, Config.validate_iff_valid]
    apply Config.valid_mergeAll
    intro c hc
    obtain ⟨l, hl, hconfig⟩ := List.mem_filterMap.mp hc
    have hat := hfound l hl
    rw [Layer.config?_eq_some_iff.mp hconfig] at hat
    exact Finding.valid_of_at hat

/-- The paths at which layers are looked for, the user's before the project's. -/
def layerPaths (userFile : Option String) (projectDir : String) : List String :=
  userFile.toList ++ [Path.join projectDir "flowline.toml"]

theorem exists_loads (tree : FileTree) (userFile : Option String) (projectDir : String) :
    ∃ layers,
      Loads tree (layerPaths userFile projectDir) layers (load tree userFile projectDir) := by
  obtain ⟨layers, hpaths, hfound⟩ := exists_layers tree (layerPaths userFile projectDir)
  have hloads := loads_foldl hfound
  rw [hpaths] at hloads
  exact ⟨layers, hloads⟩

theorem valid_load (tree : FileTree) (userFile : Option String) (projectDir : String) :
    (load tree userFile projectDir).config.validate = .ok () := by
  obtain ⟨layers, hloads⟩ := exists_loads tree userFile projectDir
  exact hloads.valid

end LoadedConfig

namespace Cli

/-! ## The program -/

variable (c : Context) {f : Failure} {e : ConfigError}

/-- A document fails for other reasons than the configuration. -/
theorem failure_of_document {path : String} (h : c.document path = .error f) : f ≠ .config e := by
  intro hf
  rw [hf, Context.document] at h
  cases hload : Pipeline.load c.environment.tree path with
  | error =>
    rw [hload] at h
    cases h
  | ok pipeline =>
    rw [hload] at h
    have hvalidate : (pipeline.validate.mapError Failure.pipeline >>= fun warnings =>
        .ok (pipeline, warnings)) = .error (.config e) := h
    cases hwarnings : pipeline.validate with
    | error =>
      rw [hwarnings] at hvalidate
      cases hvalidate
    | ok =>
      rw [hwarnings] at hvalidate
      cases hvalidate

theorem failure_of_runPipeline {p : Pipeline} {options : RunOptions} {b : Bench}
    (h : (c.runPipeline p options b).2 = .error f) : f ≠ .config e := by
  rintro rfl
  unfold Context.runPipeline at h
  dsimp only at h
  split at h
  · cases h
  · split at h
    · cases h
    · dsimp only at h
      split at h <;> split at h <;> cases h

/-- Commands fail for other reasons than the configuration. -/
theorem failure_of_action {command : Command} {b : Bench}
    (h : (command.action c b).2 = .error f) : f ≠ .config e := by
  cases command with
  | run path vars fromStep dryRun =>
    simp only [Command.action, Context.run] at h
    cases hdocument : c.document path with
    | error f' =>
      rw [hdocument] at h
      cases h
      exact failure_of_document c hdocument
    | ok read =>
      rw [hdocument] at h
      exact failure_of_runPipeline c h
  | check path =>
    simp only [Command.action, Context.check] at h
    cases hdocument : c.document path with
    | error f' =>
      rw [hdocument] at h
      cases h
      exact failure_of_document c hdocument
    | ok read =>
      rw [hdocument] at h
      dsimp only at h
      rintro rfl
      split at h <;> cases h
  | triggers showRejected =>
    simp only [Command.action, Context.triggers] at h
    split at h <;> cases h
  | serve port dryRun =>
    simp only [Command.action, Context.serve] at h
    split at h <;> cases h

theorem perform_ne_config (env : Environment) (args : Arguments) :
    (perform env args).ending ≠ .failed (.config e) := by
  have hvalid : (configuration env args.globals).validate = .ok () := LoadedConfig.valid_load ..
  unfold perform
  dsimp only
  rw [hvalid]
  dsimp only
  split
  case h_1 => simp
  case h_2 bench f haction =>
    intro hfailed
    exact failure_of_action _ (congrArg Prod.snd haction) (Ending.failed.inj hfailed)

theorem run_ne_config (env : Environment) (args : List String) :
    (run env args).ending ≠ .failed (.config e) := by
  unfold run
  split
  case h_1 => simp
  case h_2 arguments hparse =>
    unfold runArguments
    split
    · exact perform_ne_config env arguments
    · split
      case h_1 => simp
      case h_2 tree hopen => exact perform_ne_config { env with tree } arguments

end Cli

/-- **The layers of a configuration.** Whatever is found where the user's and the project's files
may be, exactly those that hold valid configurations are merged, the project's over the user's, and
every other file is warned of once; layers are merged section by section, in any groups, and what
is merged of valid ones is valid, so that the program never ends for its configuration. -/
theorem configuration_of_layers (tree : FileTree) (userFile : Option String)
    (projectDir : String) :
    (∃! layers, LoadedConfig.Loads tree (LoadedConfig.layerPaths userFile projectDir) layers
      (LoadedConfig.load tree userFile projectDir)) ∧
    Config.MergeLaws ∧ (∀ layers, Config.Merges layers (Config.mergeAll layers)) ∧
    ∀ env args e, (Cli.run env args).ending ≠ .failed (.config e) := by
  obtain ⟨layers, hloads⟩ := LoadedConfig.exists_loads tree userFile projectDir
  refine ⟨⟨layers, hloads, fun others hothers => ?_⟩, Config.mergeLaws, Config.merges,
    fun env args e => Cli.run_ne_config env args⟩
  have hpaths := hothers.paths.trans hloads.paths.symm
  exact LoadedConfig.layers_unique hpaths hothers.found hloads.found

/-- A project whose file is not valid has the configuration of the user. -/
example :
    let tree := (FileTree.empty.plant "user.toml" (Text.encode "[runner]\ndry_run = true\n")).plant
      "flowline.toml" (Text.encode "[triggers]\nenabled = false\nwebhook_secret_header = ' '\n")
    LoadedConfig.load tree (some "user.toml") "" = {
      config := { runner := some { dryRun := true } }
      sources := [⟨"user.toml", true⟩, ⟨"flowline.toml", false⟩]
      warnings := ["Failed to load flowline.toml: invalid value for " ++
        "'triggers.webhook_secret_header': header name cannot be empty"] } := by
  decide +kernel

end Workflow
