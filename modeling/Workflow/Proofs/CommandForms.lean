import Mathlib.Data.List.Forall2
import Workflow.Proofs.StepKinds

/- The forms of shell commands. A git or docker intent has a form, which is a list of parts:
   words, words that the payload puts in or leaves out, and texts of its fields. What a part
   yields is decided by the payload alone (`CommandPart.Yields`), and the command that an
   intent is lowered to is what the parts of its form yield, with blanks between
   (`yields_of_command`).
   `lowerings_of_intents` puts this together with what else becomes of the intent. -/
namespace Workflow

/-- A part of the form of a shell command. -/
inductive CommandPart where
  | word (text : String)
  /-- A word that is there if a field of the payload is true. -/
  | flag (word field : String)
  /-- The text of a field that the payload must give. -/
  | required (field : String)
  /-- The same in double quotes. -/
  | quoted (field : String)
  /-- The text of a field, or words that stand in for it. -/
  | optional (field : String) (otherwise : List String)

/-- The forms of the commands that intents are lowered to, by the names of the intents. -/
def commandForms : Table (List CommandPart) := [
  ("git.checkout", [.word "git", .word "checkout", .flag "-b" "create", .required "branch"]),
  ("git.commit", [.word "git", .word "commit", .flag "--amend" "amend", .word "-m",
    .quoted "message"]),
  ("git.pull", [.word "git", .word "pull"]),
  ("git.push", [.word "git", .word "push"]),
  ("git.clone", [.word "git", .word "clone", .required "url", .optional "dir" []]),
  ("docker.build", [.word "docker", .word "build", .word "-t", .required "tag",
    .optional "path" ["."]]),
  ("docker.run", [.word "docker", .word "run", .flag "-d" "detach", .required "image"])]

/-- Whether a part yields these words of an intent. -/
inductive CommandPart.Yields (i : Intent) : CommandPart → List String → Prop where
  | word {text : String} : Yields i (.word text) [text]
  | present {word field : String} (true_there : i.field? field = some (.bool true)) :
      Yields i (.flag word field) [word]
  | absent {word field : String} (not_true : i.field? field ≠ some (.bool true)) :
      Yields i (.flag word field) []
  | required {field text : String} (has : i.HasText field text) : Yields i (.required field) [text]
  | quoted {field text : String} (has : i.HasText field text) :
      Yields i (.quoted field) ["\"" ++ escapeDoubleQuoted text ++ "\""]
  | given {field text : String} {otherwise : List String}
      (string : i.field? field = some (.str text)) (filled : text ≠ "") :
      Yields i (.optional field otherwise) [text]
  | left {field : String} {otherwise : List String}
      (no_string : ∀ text, i.field? field = some (.str text) → text = "") :
      Yields i (.optional field otherwise) otherwise

/-- Whether a form yields a command of an intent. -/
def FormYields (i : Intent) (form : List CommandPart) (command : String) : Prop :=
  ∃ words, List.Forall₂ (CommandPart.Yields i) form words ∧ command = " ".intercalate words.flatten

/-- What lowering an intent in a directory can come to. -/
inductive Intent.Lowers (i : Intent) (cwd : String) : Except PipelineError Intent → Prop where
  /-- The field that its name requires has no text. -/
  | lacking {field : String}
      (required : (StepKind.Variant.ofName i.name).required? = some field)
      (lacks : ∀ text, ¬ i.HasText field text) :
      Lowers i cwd (.error (.missingField i.name field))
  /-- It has no form, and stays as it is. -/
  | kept (formless : Table.get? commandForms i.name = none)
      (has : ∀ field, (StepKind.Variant.ofName i.name).required? = some field →
        ∃ text, i.HasText field text) : Lowers i cwd (.ok i)
  /-- It becomes a shell command, and is known by what it was known by. -/
  | lowered {form : List CommandPart} {command : String}
      (form_of : Table.get? commandForms i.name = some form) (yields : FormYields i form command) :
      Lowers i cwd (.ok {
        id := i.id
        name := terminalRunName
        description := i.description
        capabilities := none
        payload := .obj [("command", .str command), ("cwd", .str cwd)]
        provider := i.provider
        target := i.target
        onFailure := i.onFailure
        note := i.note })

/-! ## What parts yield -/

namespace CommandPart

variable (i : Intent)

theorem yields_flag (word field : String) :
    Yields i (.flag word field) (if StepKind.flag i field then [word] else []) := by
  unfold StepKind.flag
  cases hv : i.field? field with
  | none => exact .absent (by rw [hv]; simp)
  | some v =>
    cases v with
    | bool b =>
      cases b with
      | true => exact .present hv
      | false => exact .absent (by rw [hv]; simp)
    | null | num | str | arr | obj => exact .absent (by rw [hv]; simp)

theorem yields_optional (field : String) (otherwise : List String) :
    Yields i (.optional field otherwise)
      (match StepKind.optionalText i field with
        | some text => [text]
        | none => otherwise) := by
  cases htext : StepKind.optionalText i field with
  | some text =>
    simp only [StepKind.optionalText, Intent.text?, Option.filter_eq_some_iff,
      Option.bind_eq_some_iff] at htext
    obtain ⟨⟨v, hv, hstring⟩, hfilled⟩ := htext
    cases v <;> cases hstring
    exact .given hv (by simpa using hfilled)
  | none =>
    refine .left fun text hstring => ?_
    simpa [StepKind.optionalText, Intent.text?, hstring, Json.asString?] using htext

end CommandPart

/-! ## Commands -/

section Commands

variable {i : Intent} {kind : StepKind} {command : String}

/-- A kind made of a required text is made of one that the field has. -/
theorem exists_text {field : String} {kindOf : String → StepKind}
    (h : (StepKind.requiredText i field).map kindOf = .ok kind) :
    ∃ text, i.HasText field text ∧ kindOf text = kind := by
  rcases StepKind.requiredText_cases i field with ⟨text, htext, hhas⟩ | ⟨herror, -⟩
  · rw [htext] at h
    exact ⟨text, hhas, Except.ok.inj h⟩
  · rw [herror] at h
    cases h

/-- A git or docker intent has a form, and its command is what the form yields. -/
theorem yields_of_command (hparsed : StepKind.parse i = .ok kind)
    (hcommand : kind.shellCommand? = some command) :
    ∃ form, Table.get? commandForms i.name = some form ∧ FormYields i form command := by
  unfold StepKind.parse at hparsed
  split at hparsed
  case h_1 | h_2 =>
    obtain ⟨text, -, rfl⟩ := exists_text hparsed
    cases hcommand
  case h_3 =>
    cases hparsed
    cases hcommand
  case h_4 hname =>
    obtain ⟨branch, hbranch, rfl⟩ := exists_text hparsed
    cases hcommand
    refine ⟨_, by rw [hname]; rfl, _, .cons .word (.cons .word (.cons
      (CommandPart.yields_flag i "-b" "create") (.cons (.required hbranch) .nil))), ?_⟩
    unfold GitCommand.commandLine
    cases StepKind.flag i "create" <;> simp [← String.append_assoc]
  case h_5 hname =>
    obtain ⟨message, hmessage, rfl⟩ := exists_text hparsed
    cases hcommand
    refine ⟨_, by rw [hname]; rfl, _, .cons .word (.cons .word (.cons
      (CommandPart.yields_flag i "--amend" "amend") (.cons .word (.cons (.quoted hmessage) .nil)))),
      ?_⟩
    unfold GitCommand.commandLine
    cases StepKind.flag i "amend" <;> simp [← String.append_assoc]
  case h_6 hname | h_7 hname =>
    cases hparsed
    cases hcommand
    refine ⟨_, by rw [hname]; rfl, _, .cons .word (.cons .word .nil), ?_⟩
    unfold GitCommand.commandLine
    simp
  case h_8 hname =>
    obtain ⟨url, hurl, rfl⟩ := exists_text hparsed
    cases hcommand
    refine ⟨_, by rw [hname]; rfl, _, .cons .word (.cons .word (.cons (.required hurl)
      (.cons (CommandPart.yields_optional i "dir" []) .nil))), ?_⟩
    unfold GitCommand.commandLine
    cases StepKind.optionalText i "dir" <;> simp [← String.append_assoc]
  case h_9 hname =>
    obtain ⟨tag, htag, rfl⟩ := exists_text hparsed
    cases hcommand
    refine ⟨_, by rw [hname]; rfl, _, .cons .word (.cons .word (.cons .word (.cons (.required htag)
      (.cons (CommandPart.yields_optional i "path" ["."]) .nil)))), ?_⟩
    unfold DockerCommand.commandLine
    cases StepKind.optionalText i "path" <;> simp [← String.append_assoc]
  case h_10 hname =>
    obtain ⟨image, himage, rfl⟩ := exists_text hparsed
    cases hcommand
    refine ⟨_, by rw [hname]; rfl, _, .cons .word (.cons .word (.cons
      (CommandPart.yields_flag i "-d" "detach") (.cons (.required himage) .nil))), ?_⟩
    unfold DockerCommand.commandLine
    cases StepKind.flag i "detach" <;> simp [← String.append_assoc]
  case h_11 =>
    split at hparsed <;> cases hparsed <;> cases hcommand

/-- The names with a form are those of git and docker kinds. -/
theorem git_or_docker_of_form {entry : String × List CommandPart} (h : entry ∈ commandForms)
    (hvariant : kind.variant = .ofName entry.1) : ∃ command, kind.shellCommand? = some command := by
  simp only [commandForms, List.mem_cons, List.not_mem_nil, or_false] at h
  cases kind with
  | git command => exact ⟨command.commandLine, rfl⟩
  | docker command => exact ⟨command.commandLine, rfl⟩
  | setCwd | setVar | terminalRun | trigger | other =>
    rcases h with rfl | rfl | rfl | rfl | rfl | rfl | rfl <;> cases hvariant

theorem formless_of_no_command (hparsed : StepKind.parse i = .ok kind)
    (hnone : kind.shellCommand? = none) : Table.get? commandForms i.name = none := by
  cases hform : Table.get? commandForms i.name with
  | none => rfl
  | some form =>
    obtain ⟨command, hcommand⟩ :=
      git_or_docker_of_form (Table.mem_of_get? hform) (StepKind.variant_of_parse hparsed)
    rw [hnone] at hcommand
    cases hcommand

end Commands

/-! ## Lowered intents -/

namespace Intent

variable {i : Intent} {kind : StepKind}

theorem toTerminal_of_no_command (hparsed : StepKind.parse i = .ok kind)
    (hnone : kind.shellCommand? = none) (cwd : String) : i.toTerminal cwd = .ok i := by
  simp [toTerminal, hparsed, hnone, bind, Except.bind]

theorem toTerminal_of_command {command : String} (hparsed : StepKind.parse i = .ok kind)
    (hcommand : kind.shellCommand? = some command) (cwd : String) :
    i.toTerminal cwd = .ok { i with
      name := terminalRunName
      payload := .obj [("command", .str command), ("cwd", .str cwd)]
      capabilities := none } := by
  simp [toTerminal, hparsed, hcommand, bind, Except.bind]

theorem lowers (i : Intent) (cwd : String) : i.Lowers cwd (i.toTerminal cwd) := by
  cases hparsed : StepKind.parse i with
  | error e =>
    obtain ⟨field, hfield, hnone, rfl⟩ := StepKind.parse_error_iff_text.mp hparsed
    have hfails : i.toTerminal cwd = .error (.missingField i.name field) := by
      simp [toTerminal, hparsed, bind, Except.bind]
    rw [hfails]
    exact .lacking hfield hnone
  | ok kind =>
    cases hcommand : kind.shellCommand? with
    | none =>
      rw [toTerminal_of_no_command hparsed hcommand]
      refine .kept (formless_of_no_command hparsed hcommand) fun field hfield => ?_
      refine Classical.byContradiction fun hno => ?_
      have herror := StepKind.parse_error_iff_text.mpr
        ⟨field, hfield, fun text hhas => hno ⟨text, hhas⟩, rfl⟩
      rw [hparsed] at herror
      cases herror
    | some command =>
      obtain ⟨form, hform, hyields⟩ := yields_of_command hparsed hcommand
      rw [toTerminal_of_command hparsed hcommand]
      exact .lowered hform hyields

/-- What an intent is lowered to stands for no command any more. -/
theorem settled_of_toTerminal {out : Intent} {cwd : String} (h : i.toTerminal cwd = .ok out) :
    ∃ kind, StepKind.parse out = .ok kind ∧ kind.shellCommand? = none := by
  cases hparsed : StepKind.parse i with
  | error e => simp [toTerminal, hparsed, bind, Except.bind] at h
  | ok kind =>
    cases hcommand : kind.shellCommand? with
    | none =>
      rw [toTerminal_of_no_command hparsed hcommand] at h
      cases h
      exact ⟨kind, hparsed, hcommand⟩
    | some command =>
      rw [toTerminal_of_command hparsed hcommand] at h
      cases h
      obtain ⟨command', cwd', hshell⟩ := StepKind.parse_shell (i := { i with
        name := terminalRunName
        payload := .obj [("command", .str command), ("cwd", .str cwd)]
        capabilities := none }) rfl
      exact ⟨_, hshell, rfl⟩

end Intent

/-- **What intents are lowered to.** In any directory, an intent either lacks the field that its
name requires, and lowering fails with that field; or it has no form and stays as it is; or it
becomes a shell command of nothing but its text, which is what its form yields, and the directory,
asks for no capabilities, and keeps all that it is known by. What comes out has no form, and
lowering it once more, in whatever directory, changes nothing. -/
theorem lowerings_of_intents (i : Intent) (cwd : String) :
    i.Lowers cwd (i.toTerminal cwd) ∧
    ∀ out, i.toTerminal cwd = .ok out → Table.get? commandForms out.name = none ∧
      ∀ elsewhere, out.toTerminal elsewhere = .ok out := by
  refine ⟨i.lowers cwd, fun out hout => ?_⟩
  obtain ⟨kind, hparsed, hnone⟩ := Intent.settled_of_toTerminal hout
  exact ⟨formless_of_no_command hparsed hnone, Intent.toTerminal_of_no_command hparsed hnone⟩

end Workflow
