import Workflow.Proofs.DefaultDirectories
import Workflow.Proofs.Tokens

/- What decides the kind of a step. The name of its intent decides the variant, and with it the one
   field that the payload must give, if there is one (`StepKind.decided`); filling the
   templates of the payload changes no name, so it changes no variant either, and can only
   take away a required text by filling it with nothing. `kinds_of_intents` says so of every
   intent and every store, and that nothing fails any more behind a kind. -/
namespace Workflow

namespace StepKind

/-- A kind without the texts and flags that a payload gives it. -/
inductive Variant where
  | setCwd
  | setVar
  | terminalRun
  | checkout
  | commit
  | pull
  | push
  | clone
  | build
  | run
  | trigger (suffix : String)
  | other
  deriving DecidableEq, Repr

/-- The variant of a kind. -/
def variant : StepKind → Variant
  | .setCwd _ => .setCwd
  | .setVar _ _ => .setVar
  | .terminalRun _ _ => .terminalRun
  | .git (.checkout _ _) => .checkout
  | .git (.commit _ _) => .commit
  | .git .pull => .pull
  | .git .push => .push
  | .git (.clone _ _) => .clone
  | .docker (.build _ _) => .build
  | .docker (.run _ _) => .run
  | .trigger suffix => .trigger suffix
  | .other => .other

/-- The variant that the name of an intent stands for. -/
def Variant.ofName : String → Variant
  | "system.setCwd" => .setCwd
  | "system.setVar" => .setVar
  | "terminal.run" => .terminalRun
  | "git.checkout" => .checkout
  | "git.commit" => .commit
  | "git.pull" => .pull
  | "git.push" => .push
  | "git.clone" => .clone
  | "docker.build" => .build
  | "docker.run" => .run
  | name => ((Text.afterStart? triggerStart name).map .trigger).getD .other

/-- The field that a variant cannot do without. -/
def Variant.required? : Variant → Option String
  | .setCwd => some "path"
  | .setVar => some "name"
  | .checkout => some "branch"
  | .commit => some "message"
  | .clone => some "url"
  | .build => some "tag"
  | .run => some "image"
  | .terminalRun | .pull | .push | .trigger _ | .other => none

/-- What parsing an intent can come to: a kind that is there whatever the payload, or one made of the
text of the field that is required. -/
inductive Decided (i : Intent) : Except PipelineError StepKind → Prop where
  | free {kind : StepKind} (required : (Variant.ofName i.name).required? = none)
      (same : kind.variant = .ofName i.name) : Decided i (.ok kind)
  | by_field {field : String} {kindOf : String → StepKind}
      (required : (Variant.ofName i.name).required? = some field)
      (same : ∀ text, (kindOf text).variant = .ofName i.name) :
      Decided i ((requiredText i field).map kindOf)

theorem decided (i : Intent) : Decided i (parse i) := by
  unfold parse
  split
  case h_3 h | h_6 h | h_7 h => exact .free (by rw [h]; rfl) (by rw [h]; rfl)
  case h_11 name h1 h2 h3 h4 h5 h6 h7 h8 h9 h10 =>
    have hname : Variant.ofName i.name =
        ((Text.afterStart? triggerStart i.name).map .trigger).getD .other := by
      unfold Variant.ofName
      split <;> first | rfl | contradiction
    split
    · rename_i suffix hstart
      refine .free ?_ ?_ <;> rw [hname, hstart] <;> rfl
    · rename_i hstart
      refine .free ?_ ?_ <;> rw [hname, hstart] <;> rfl
  all_goals
    rename_i h
    exact .by_field (by rw [h]; rfl) (by rw [h]; exact fun _ => rfl)

/-- The variant of a kind is that of the intent's name. -/
theorem variant_of_parse {i : Intent} {kind : StepKind} (h : parse i = .ok kind) :
    kind.variant = .ofName i.name := by
  have hdecided := decided i
  rw [h] at hdecided
  generalize hresult : (Except.ok kind : Except PipelineError StepKind) = result at hdecided
  cases hdecided with
  | free _ same =>
    cases hresult
    exact same
  | @by_field field kindOf _ same =>
    cases htext : requiredText i field with
    | error e =>
      rw [htext] at hresult
      cases hresult
    | ok text =>
      rw [htext] at hresult
      cases hresult
      exact same text

/-- A name stands for a trigger only by what it begins with. -/
theorem Variant.afterStart?_of_ofName {name suffix : String} (h : ofName name = .trigger suffix) :
    Text.afterStart? triggerStart name = some suffix := by
  unfold ofName at h
  split at h
  case h_11 =>
    cases hstart : Text.afterStart? triggerStart name with
    | none =>
      rw [hstart] at h
      cases h
    | some rest =>
      rw [hstart] at h
      cases h
      rfl
  all_goals cases h

end StepKind

/-! ## Required fields -/

namespace Intent

/-- Whether a text is that of a field: the numeral of a number, or a string that is not empty. -/
inductive HasText (i : Intent) (field : String) : String → Prop where
  | number {n : Json.Number} (given : i.field? field = some (.num n)) :
      HasText i field (String.ofList n.text)
  | string {s : String} (given : i.field? field = some (.str s)) (filled : s ≠ "") :
      HasText i field s

/-- Whether a field gives a text when the templates of the payload are filled: it is a number, or a
string that is filled with something. -/
def Gives (i : Intent) (vars : Variables) (field : String) : Prop :=
  (∃ n, i.field? field = some (.num n)) ∨
    ∃ s, i.field? field = some (.str s) ∧ Template.fill vars s ≠ ""

/-- Whether an error says of an intent, its templates being filled, that it does not give the field
that its name requires. -/
def Lacks (i : Intent) (vars : Variables) (e : PipelineError) : Prop :=
  ∃ field, (StepKind.Variant.ofName i.name).required? = some field ∧ ¬ i.Gives vars field ∧
    e = .missingField i.name field

theorem field?_resolve (i : Intent) (vars : Variables) (name : String) :
    (i.resolve vars).field? name = (i.field? name).map (Template.fillJson vars) :=
  Template.field?_fillJson vars i.payload name

theorem exists_hasText_iff {i : Intent} {vars : Variables} {field : String} :
    (∃ text, (i.resolve vars).HasText field text) ↔ i.Gives vars field := by
  constructor
  · rintro ⟨text, hn | ⟨hs, hfilled⟩⟩
    · rw [field?_resolve, Option.map_eq_some_iff] at hn
      obtain ⟨v, hv, hnumber⟩ := hn
      cases v <;> cases hnumber
      exact .inl ⟨_, hv⟩
    · rw [field?_resolve, Option.map_eq_some_iff] at hs
      obtain ⟨v, hv, hstring⟩ := hs
      cases v <;> cases hstring
      exact .inr ⟨_, hv, hfilled⟩
  · rintro (⟨n, hn⟩ | ⟨s, hs, hfilled⟩)
    · exact ⟨_, .number (by rw [field?_resolve, hn]; rfl)⟩
    · exact ⟨_, .string (by rw [field?_resolve, hs]; rfl) hfilled⟩

end Intent

namespace StepKind

variable {i : Intent} {vars : Variables} {field : String}

/-- A required text is that of the field, and an error where the field has none. -/
theorem requiredText_cases (i : Intent) (field : String) :
    (∃ text, requiredText i field = .ok text ∧ i.HasText field text) ∨
      (requiredText i field = .error (.missingField i.name field) ∧
        ∀ text, ¬ i.HasText field text) := by
  unfold requiredText
  split
  case h_1 s hs =>
    by_cases hempty : s = ""
    · refine .inr ⟨by simp [hempty], ?_⟩
      rintro text (hn | ⟨hs', hfilled⟩)
      · cases hs.symm.trans hn
      · cases hs.symm.trans hs'
        exact hfilled hempty
    · exact .inl ⟨s, by simp [hempty], .string hs hempty⟩
  case h_2 n hn => exact .inl ⟨_, rfl, .number hn⟩
  case h_3 hno_string hno_number =>
    refine .inr ⟨rfl, ?_⟩
    rintro text (hn | ⟨hs, -⟩)
    · exact hno_number _ hn
    · exact hno_string _ hs

/-- Parsing fails exactly where the required field has no text. -/
theorem parse_error_iff_text {e : PipelineError} :
    parse i = .error e ↔ ∃ field, (Variant.ofName i.name).required? = some field ∧
      (∀ text, ¬ i.HasText field text) ∧ e = .missingField i.name field := by
  have hdecided := decided i
  generalize parse i = result at hdecided
  cases hdecided with
  | free required _ =>
    refine iff_of_false (by simp) ?_
    rintro ⟨field, hfield, -⟩
    cases required.symm.trans hfield
  | @by_field field kindOf required _ =>
    rcases requiredText_cases i field with ⟨text, htext, hhas⟩ | ⟨herror, hnone⟩
    · rw [htext]
      refine iff_of_false (by simp [Except.map]) ?_
      rintro ⟨field', hfield, hnone, -⟩
      cases required.symm.trans hfield
      exact hnone text hhas
    · rw [herror]
      constructor
      · intro h
        cases h
        exact ⟨field, required, hnone, rfl⟩
      · rintro ⟨field', hfield, -, rfl⟩
        cases required.symm.trans hfield
        rfl

/-- With its templates filled an intent fails to be of a kind exactly if it lacks what its name
requires. -/
theorem parse_error_iff {e : PipelineError} :
    parse (i.resolve vars) = .error e ↔ i.Lacks vars e := by
  rw [parse_error_iff_text]
  simp only [← not_exists, Intent.exists_hasText_iff]
  rfl

/-- What parses without the store can fail with it only by a string that is filled with nothing. -/
theorem emptied_of_parse_error {kind : StepKind} {e : PipelineError} (hraw : parse i = .ok kind)
    (h : parse (i.resolve vars) = .error e) :
    ∃ field s, (Variant.ofName i.name).required? = some field ∧ i.field? field = some (.str s) ∧
      Template.fill vars s = "" := by
  obtain ⟨field, hfield, hnot, -⟩ := parse_error_iff.mp h
  have hgiven : i.Gives [] field := Classical.byContradiction fun hmissing => by
    have herror := parse_error_iff.mpr ⟨field, hfield, hmissing, rfl⟩
    rw [Intent.resolve_nil, hraw] at herror
    cases herror
  rcases hgiven with ⟨n, hn⟩ | ⟨s, hs, -⟩
  · exact absurd (.inl ⟨n, hn⟩) hnot
  · exact ⟨field, s, hfield, hs, Decidable.of_not_not fun hfilled => hnot (.inr ⟨s, hs, hfilled⟩)⟩

/-- What fails without the store fails alike with any: nothing is filled into a text that is not
there. -/
theorem parse_error_of_raw {e : PipelineError} (h : parse i = .error e) :
    parse (i.resolve vars) = .error e := by
  rw [← Intent.resolve_nil i] at h
  obtain ⟨field, hfield, hnot, rfl⟩ := parse_error_iff.mp h
  refine parse_error_iff.mpr ⟨field, hfield, ?_, rfl⟩
  rintro (⟨n, hn⟩ | ⟨s, hs, hfilled⟩)
  · exact hnot (.inl ⟨n, hn⟩)
  · refine hnot (.inr ⟨s, hs, fun hempty => hfilled ?_⟩)
    rw [Template.fill_nil] at hempty
    rw [hempty, Template.fill, String.toList_empty, Template.fillChars_nil]

end StepKind

/-! ## Compiling -/

/-- An intent of a kind is compiled. -/
theorem toTerminal_of_parse {i : Intent} {kind : StepKind} (h : StepKind.parse i = .ok kind)
    (cwd : String) : ∃ compiled, i.toTerminal cwd = .ok compiled := by
  unfold Intent.toTerminal
  rw [h]
  cases hcommand : kind.shellCommand? with
  | none => exact ⟨i, by simp [bind, Except.bind, hcommand]⟩
  | some command => exact ⟨_, by simp only [bind, Except.bind, hcommand]; rfl⟩

namespace Scope

variable (scope : Scope) {step : Intent}

/-- The kind that is asked for first and that of what is compiled are of one variant: only a shell
command has its directory defaulted, and it requires no field. -/
theorem parse_defaulted {kind : StepKind}
    (h : StepKind.parse (step.resolve scope.vars) = .ok kind) :
    ∃ kind', StepKind.parse ((scope.defaulted step).resolve scope.vars) = .ok kind' ∧
      kind'.variant = kind.variant := by
  by_cases hshell : step.name = terminalRunName
  · have hname : (scope.defaulted step).name = terminalRunName := by
      rw [defaulted, if_pos hshell, hshell]
    obtain ⟨command, cwd, hkind⟩ :=
      StepKind.parse_shell (i := (scope.defaulted step).resolve scope.vars) hname
    refine ⟨_, hkind, ?_⟩
    rw [StepKind.variant_of_parse h]
    show _ = StepKind.Variant.ofName step.name
    rw [hshell]
    rfl
  · exact ⟨kind, by rw [defaulted, if_neg hshell, h], rfl⟩

/-- A step of a kind is made ready. -/
theorem ready_of_parse {kind : StepKind}
    (h : StepKind.parse (step.resolve scope.vars) = .ok kind) :
    ∃ ready, scope.ready step = .ok ready := by
  obtain ⟨kind', hkind', -⟩ := scope.parse_defaulted h
  obtain ⟨compiled, hcompiled⟩ := toTerminal_of_parse hkind' scope.cwd
  have hcompile : (scope.defaulted step).compile scope.vars scope.cwd = .ok compiled := hcompiled
  unfold ready
  rw [h]
  cases hcontrol : kind.isControlFlow with
  | true => exact ⟨.control kind, by simp [bind, Except.bind, hcontrol]⟩
  | false => exact ⟨.dispatch compiled, by simp [bind, Except.bind, hcontrol, hcompile]⟩

/-- A step fails to be made ready as it fails to be of a kind. -/
theorem ready_error_iff {e : PipelineError} :
    scope.ready step = .error e ↔ step.Lacks scope.vars e := by
  rw [← StepKind.parse_error_iff]
  cases h : StepKind.parse (step.resolve scope.vars) with
  | error e' =>
    unfold ready
    simp [h, bind, Except.bind]
  | ok kind =>
    obtain ⟨ready, hready⟩ := scope.ready_of_parse h
    rw [hready]
    simp

end Scope

/-- **The kinds of intents.** Whatever is known of variables: an intent is of one variant before and
after its templates are filled, as far as it is of any. After they are filled it fails to be of a
kind exactly if it lacks the one field that its name requires, which the error names with the
intent. So what fails unfilled fails alike under every store, and what does not can fail only by a
string that is filled with nothing. What is of a kind when it is filled is compiled, in any
directory, and as a run does it, which decides on the kind once more behind the directory that it
puts in: a step can be refused by a run for nothing but a field that it lacks. -/
theorem kinds_of_intents (i : Intent) (vars : Variables) :
    (∀ kind kind', StepKind.parse i = .ok kind → StepKind.parse (i.resolve vars) = .ok kind' →
      kind'.variant = kind.variant) ∧
    (∀ e, StepKind.parse (i.resolve vars) = .error e ↔ i.Lacks vars e) ∧
    ((StepKind.Variant.ofName i.name).required? = none →
      ∃ kind, StepKind.parse (i.resolve vars) = .ok kind) ∧
    (∀ e, StepKind.parse i = .error e → StepKind.parse (i.resolve vars) = .error e) ∧
    (∀ kind e, StepKind.parse i = .ok kind → StepKind.parse (i.resolve vars) = .error e →
      ∃ field s, (StepKind.Variant.ofName i.name).required? = some field ∧
        i.field? field = some (.str s) ∧ Template.fill vars s = "") ∧
    (∀ kind, StepKind.parse (i.resolve vars) = .ok kind →
      (∀ cwd, ∃ compiled, i.compile vars cwd = .ok compiled) ∧
      ∀ cwd dryRun, ∃ ready, Scope.ready ⟨vars, cwd, dryRun⟩ i = .ok ready) ∧
    ∀ cwd dryRun e, Scope.ready ⟨vars, cwd, dryRun⟩ i = .error e ↔ i.Lacks vars e := by
  refine ⟨fun kind kind' hraw hfilled => ?_, fun e => StepKind.parse_error_iff, fun hnone => ?_,
    fun e => StepKind.parse_error_of_raw, fun kind e => StepKind.emptied_of_parse_error,
    fun kind hkind => ⟨toTerminal_of_parse hkind, fun cwd dryRun => Scope.ready_of_parse _ hkind⟩,
    fun cwd dryRun e => Scope.ready_error_iff _⟩
  · exact (StepKind.variant_of_parse hfilled).trans (StepKind.variant_of_parse hraw).symm
  · cases hfilled : StepKind.parse (i.resolve vars) with
    | ok kind => exact ⟨kind, rfl⟩
    | error e =>
      obtain ⟨field, hfield, -⟩ := StepKind.parse_error_iff.mp hfilled
      cases hnone.symm.trans hfield

end Workflow
