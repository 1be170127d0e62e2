import Workflow.Http.Token
import Workflow.Step.Kind
import Workflow.Trigger.Definition

/- The triggers of a pipeline. Each step whose intent is that of a trigger gives a
   trigger or the reason why it does not; a disabled one gives nothing. -/
namespace Workflow

/-- Why a step declares no trigger. -/
inductive TriggerError where
  | invalid (kind step reason : String)
  | badPattern (pattern : String) (error : Glob.PatternError)
  deriving DecidableEq, Repr, Inhabited

/-- The words for an error. -/
def TriggerError.message : TriggerError → String
  | .invalid kind step reason => s!"Invalid {kind} trigger '{step}': {reason}"
  | .badPattern pattern e => s!"Invalid glob pattern '{pattern}': {e.message}"

/-- What holds where a payload says nothing, in milliseconds. Webhooks have no cooldown by
default. -/
structure TriggerDefaults where
  cooldown : Nat := 2500
  debounce : Nat := 500
  deriving DecidableEq, Repr, Inhabited

namespace TriggerDefinition

/-- The text of a field without the blanks around it, when something is left of it. -/
def trimmed? (payload : Json) (field : String) : Option String :=
  (((payload.field? field).bind Json.asString?).map Text.trim).filter (!·.isEmpty)

/-- Whether a step is not disabled. -/
def isEnabled (step : Intent) : Bool :=
  (step.field? "enabled").bind Json.asBool? != some false

/-- The pipeline that a step asks for after a success. -/
def onSuccess? (step : Intent) : Option String := trimmed? step.payload "onSuccessPipeline"

/-- The pattern of a watch: a field that stands under the first of two names hides the other. -/
def patternText? (payload : Json) : Option String :=
  if (payload.field? "glob").isSome then trimmed? payload "glob" else trimmed? payload "pattern"

/-- The names of the changes that a watch lists. -/
def changeNames (payload : Json) (label : String) : Except TriggerError (List String) :=
  match payload.field? "events" with
  | none => .ok ["change"]
  | some .null => .ok ["change"]
  | some (.str s) => .ok [s]
  | some (.arr items) => .ok (items.filterMap Json.asString?)
  | some _ => .error (.invalid "watch" label "events must be a list")

/-- The kinds of changes of names, each once, behind those already found. -/
def changesOf (label : String) : List ChangeKind → List String →
    Except TriggerError (List ChangeKind)
  | found, [] => .ok found
  | found, name :: rest =>
    match ChangeKind.parse? name with
    | none => .error (.invalid "watch" label s!"unknown change kind '{name}'")
    | some kind => changesOf label (if found.contains kind then found else found ++ [kind]) rest

/-- The watch of a payload. -/
def readWatch (payload : Json) (label : String) (defaults : TriggerDefaults) :
    Except TriggerError WatchSpec :=
  match patternText? payload with
  | none => .error (.invalid "watch" label "missing glob pattern")
  | some text =>
    match Glob.Pattern.parse text with
    | .error e => .error (.badPattern text e)
    | .ok pattern => do
      let names ← changeNames payload label
      let changes ← changesOf label [] names
      .ok {
        pattern
        changes := if changes.isEmpty then [.change] else changes
        debounce := (Schedule.millis? payload "debounceMs").getD defaults.debounce }

/-- Whether a character cannot stand in the path of a webhook. -/
def breaksPath (c : Char) : Bool := c == '?' || c == '#' || Text.isBlank c

/-- The method of a webhook. -/
def readMethod (payload : Json) (label : String) : Except TriggerError String :=
  match (payload.field? "method").bind Json.asString? with
  | none => .ok "POST"
  | some m =>
    let method := Text.asciiUpper (Text.trim m)
    if Http.isToken method then .ok method
    else .error (.invalid "webhook" label s!"invalid method '{m}'")

/-- The route of a payload. -/
def readWebhook (payload : Json) (label : String) : Except TriggerError WebhookSpec :=
  match trimmed? payload "path" with
  | none => .error (.invalid "webhook" label "missing path")
  | some raw =>
    if raw.toList.any breaksPath then
      .error (.invalid "webhook" label s!"invalid path '{raw}'")
    else do
      let method ← readMethod payload label
      .ok {
        path := if Path.isAbsolute raw then raw else "/" ++ raw
        method
        secret := ((payload.field? "secret").bind Json.asString?).filter (!·.isEmpty) }

/-- What a payload waits for. -/
def readSpec (kind : TriggerKind) (payload : Json) (label : String)
    (defaults : TriggerDefaults) : Except TriggerError TriggerSpec :=
  match kind with
  | .cron =>
    match Schedule.interval? payload with
    | some interval => .ok (.cron interval)
    | none => .error (.invalid "cron" label "missing or unsupported schedule")
  | .watch => (readWatch payload label defaults).map .watch
  | .webhook => (readWebhook payload label).map .webhook

/-- The cooldown of a kind that a payload says nothing of. -/
def defaultCooldown (defaults : TriggerDefaults) : TriggerKind → Nat
  | .webhook => 0
  | _ => defaults.cooldown

/-- The trigger that a step declares; none when it declares none or is disabled. -/
def ofStep (pipeline : String) (index : Nat) (step : Intent) (defaults : TriggerDefaults) :
    Except TriggerError (Option TriggerDefinition) :=
  match Text.afterStart? triggerStart step.name with
  | none => .ok none
  | some suffix =>
    if !isEnabled step then .ok none
    else match TriggerKind.ofName? suffix with
      | none => .error (.invalid suffix step.label "unknown trigger kind")
      | some kind => do
        let spec ← readSpec kind step.payload step.label defaults
        .ok (some {
          pipeline
          stepIndex := index
          stepId := step.id
          spec
          cooldown :=
            (Schedule.millis? step.payload "cooldownMs").getD (defaultCooldown defaults kind)
          onSuccess := onSuccess? step })

/-- When a step gives a trigger, and which. -/
theorem ofStep_eq_some_iff {pipeline : String} {index : Nat} {step : Intent}
    {defaults : TriggerDefaults} {d : TriggerDefinition} :
    ofStep pipeline index step defaults = .ok (some d) ↔
      ∃ suffix kind spec, Text.afterStart? triggerStart step.name = some suffix ∧
        isEnabled step = true ∧ TriggerKind.ofName? suffix = some kind ∧
        readSpec kind step.payload step.label defaults = .ok spec ∧
        d = {
          pipeline
          stepIndex := index
          stepId := step.id
          spec
          cooldown :=
            (Schedule.millis? step.payload "cooldownMs").getD (defaultCooldown defaults kind)
          onSuccess := onSuccess? step } := by
  unfold ofStep
  constructor
  · intro h
    split at h
    case h_1 => cases h
    case h_2 suffix hstart =>
      split at h
      case isTrue => cases h
      case isFalse henabled =>
        split at h
        case h_1 => cases h
        case h_2 kind hkind =>
          cases hspec : readSpec kind step.payload step.label defaults with
          | error e =>
            rw [hspec] at h
            cases h
          | ok spec =>
            rw [hspec] at h
            cases h
            exact ⟨suffix, kind, spec, hstart, by simpa using henabled, hkind, hspec, rfl⟩
  · rintro ⟨suffix, kind, spec, hstart, henabled, hkind, hspec, rfl⟩
    simp [hstart, henabled, hkind, hspec]
    rfl

/-- When a step gives neither a trigger nor a reason. -/
theorem ofStep_eq_none_iff {pipeline : String} {index : Nat} {step : Intent}
    {defaults : TriggerDefaults} :
    ofStep pipeline index step defaults = .ok none ↔
      Text.afterStart? triggerStart step.name = none ∨ isEnabled step = false := by
  unfold ofStep
  split
  case h_1 hstart => simp [hstart]
  case h_2 suffix hstart =>
    cases henabled : isEnabled step
    · simp
    · simp [hstart]
      split
      · simp
      · cases readSpec _ step.payload step.label defaults <;> simp [bind, Except.bind]

end TriggerDefinition

namespace Pipeline

/-- What each step gives as a trigger, in the order of the steps. -/
def triggerResults (p : Pipeline) (path : String) (defaults : TriggerDefaults) :
    List (Except TriggerError (Option TriggerDefinition)) :=
  p.steps.zipIdx.map fun (step, i) => TriggerDefinition.ofStep path i step defaults

/-- The triggers of a pipeline, and the errors of the steps that give none. -/
def triggers (p : Pipeline) (path : String) (defaults : TriggerDefaults) :
    List TriggerDefinition × List TriggerError :=
  let results := p.triggerResults path defaults
  (results.filterMap fun r => match r with
    | .ok d => d
    | .error _ => none,
   results.filterMap fun r => match r with
    | .ok _ => none
    | .error e => some e)

/-- The pipeline that is to follow this one in a chain: that of the first trigger step that is
not disabled and names one. -/
def chainTarget? (p : Pipeline) : Option String :=
  (p.steps.filter fun s =>
    Text.beginsWith triggerStart s.name && TriggerDefinition.isEnabled s).findSome?
      TriggerDefinition.onSuccess?

end Pipeline

end Workflow
