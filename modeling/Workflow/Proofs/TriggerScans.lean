import Workflow.Proofs.Intervals
import Workflow.Proofs.Itinerary
import Workflow.Proofs.TriggerIds

/- What the scan of a pipeline yields, whatever its payloads are. Each step gives a trigger, a
   reason why it has none, or nothing, by itself (`given?`), and the scan is what the steps give, in
   their order. What a trigger waits for is fit for use (`wellFormed_of_readSpec`), so nobody checks
   it again, and where the pipeline is started for it is its own step (`startIndex_start`). All of
   this together is `surveyed_triggers`. -/
namespace Workflow

/-! ## What triggers wait for -/

/-- Whether what a trigger waits for is fit for use. -/
def TriggerSpec.WellFormed : TriggerSpec → Prop
  | .cron interval => 0 < interval ∧ interval ≤ 366 * 24 * 3600 * Schedule.second
  | .watch w => w.changes ≠ [] ∧ w.changes.Nodup
  | .webhook hook => hook.path.toList.head? = some '/' ∧
      ∀ c ∈ hook.path.toList, c ≠ '?' ∧ c ≠ '#' ∧ Text.isBlank c = false

namespace TriggerDefinition

section Specs

variable {payload : Json} {label : String} {defaults : TriggerDefaults}

/-- No kind of change is found twice. -/
theorem nodup_of_changesOf {found changes : List ChangeKind} {names : List String}
    (h : changesOf label found names = .ok changes) (hfound : found.Nodup) : changes.Nodup := by
  induction names generalizing found with
  | nil =>
    cases h
    exact hfound
  | cons name names ih =>
    unfold changesOf at h
    split at h
    case h_1 => cases h
    case h_2 kind hkind =>
      refine ih h ?_
      split
      case isTrue => exact hfound
      case isFalse hnew =>
        refine List.nodup_append.mpr ⟨hfound, by simp, ?_⟩
        rintro a ha b hb rfl
        rw [List.mem_singleton.mp hb] at ha
        exact hnew (List.contains_iff_mem.mpr ha)

theorem changes_of_readWatch {watch : WatchSpec}
    (h : readWatch payload label defaults = .ok watch) :
    watch.changes ≠ [] ∧ watch.changes.Nodup := by
  unfold readWatch at h
  split at h
  case h_1 => cases h
  case h_2 text htext =>
    split at h
    case h_1 => cases h
    case h_2 pattern hpattern =>
      cases hnames : changeNames payload label with
      | error e =>
        rw [hnames] at h
        cases h
      | ok names =>
        cases hchanges : changesOf label [] names with
        | error e =>
          simp only [hnames, hchanges, bind, Except.bind] at h
          cases h
        | ok changes =>
          simp only [hnames, hchanges, bind, Except.bind] at h
          cases h
          dsimp only
          split
          case isTrue => exact by decide
          case isFalse hne =>
            exact ⟨fun hnil => hne (List.isEmpty_iff.mpr hnil),
              nodup_of_changesOf hchanges List.nodup_nil⟩

theorem path_of_readWebhook {hook : WebhookSpec} (h : readWebhook payload label = .ok hook) :
    hook.path.toList.head? = some '/' ∧
      ∀ c ∈ hook.path.toList, c ≠ '?' ∧ c ≠ '#' ∧ Text.isBlank c = false := by
  unfold readWebhook at h
  split at h
  case h_1 => cases h
  case h_2 raw hraw =>
    split at h
    case isTrue => cases h
    case isFalse hbreaks =>
      have hplain : ∀ c ∈ raw.toList, c ≠ '?' ∧ c ≠ '#' ∧ Text.isBlank c = false := by
        simpa [breaksPath, and_assoc] using hbreaks
      cases hmethod : readMethod payload label with
      | error e =>
        rw [hmethod] at h
        cases h
      | ok method =>
        rw [hmethod] at h
        cases h
        dsimp only
        split
        case isTrue habsolute => exact ⟨by simpa [Path.isAbsolute] using habsolute, hplain⟩
        case isFalse =>
          rw [String.toList_append]
          refine ⟨rfl, fun c hc => ?_⟩
          rcases List.mem_append.mp hc with hslash | hc
          · rw [List.mem_singleton.mp hslash]
            decide
          · exact hplain c hc

theorem wellFormed_of_readSpec {kind : TriggerKind} {spec : TriggerSpec}
    (h : readSpec kind payload label defaults = .ok spec) : spec.WellFormed := by
  cases kind with
  | cron =>
    unfold readSpec at h
    dsimp only at h
    split at h
    case h_1 interval hinterval =>
      cases h
      exact Schedule.interval?_bounded hinterval
    case h_2 => cases h
  | watch =>
    cases hwatch : readWatch payload label defaults with
    | error e =>
      simp [readSpec, hwatch, Except.map] at h
    | ok watch =>
      simp only [readSpec, hwatch, Except.map, Except.ok.injEq] at h
      subst h
      exact changes_of_readWatch hwatch
  | webhook =>
    cases hhook : readWebhook payload label with
    | error e =>
      simp [readSpec, hhook, Except.map] at h
    | ok hook =>
      simp only [readSpec, hhook, Except.map, Except.ok.injEq] at h
      subst h
      exact path_of_readWebhook hhook

end Specs

/-! ## Steps -/

section Steps

variable {path : String} {index : Nat} {step : Intent} {defaults : TriggerDefaults}

/-- What a step gives, if it gives anything: its trigger, or the reason why it has none. -/
def given? (path : String) (index : Nat) (step : Intent) (defaults : TriggerDefaults) :
    Option (TriggerDefinition ⊕ TriggerError) :=
  match ofStep path index step defaults with
  | .ok found => found.map .inl
  | .error e => some (.inr e)

/-- What a step would give at another place. -/
def moved (index : Nat) : TriggerDefinition ⊕ TriggerError → TriggerDefinition ⊕ TriggerError
  | .inl d => .inl { d with stepIndex := index }
  | .inr e => .inr e

theorem given?_eq_inl_iff {d : TriggerDefinition} :
    given? path index step defaults = some (.inl d) ↔
      ofStep path index step defaults = .ok (some d) := by
  unfold given?
  cases ofStep path index step defaults <;> simp

theorem given?_eq_none_iff :
    given? path index step defaults = none ↔ ofStep path index step defaults = .ok none := by
  unfold given?
  cases ofStep path index step defaults <;> simp

theorem isEnabled_iff : isEnabled step = true ↔ step.field? "enabled" ≠ some (.bool false) := by
  unfold isEnabled
  cases step.field? "enabled" with
  | none => simp
  | some v => cases v <;> simp [Json.asBool?]

theorem given?_eq_moved : given? path index step defaults =
    (given? path 0 step defaults).map (moved index) := by
  unfold given? ofStep
  cases Text.afterStart? triggerStart step.name with
  | none => rfl
  | some suffix =>
    cases isEnabled step with
    | false => rfl
    | true =>
      simp only [Bool.not_true, Bool.false_eq_true, if_false]
      cases TriggerKind.ofName? suffix with
      | none => rfl
      | some kind =>
        dsimp only
        cases readSpec kind step.payload step.label defaults <;> rfl

end Steps

end TriggerDefinition

/-- Whether a step is there to declare a trigger. -/
def Intent.IsTrigger (step : Intent) : Prop :=
  (∃ suffix, step.name = triggerStart ++ suffix) ∧ step.field? "enabled" ≠ some (.bool false)

open TriggerDefinition (given? moved)

theorem isSome_given?_iff {path : String} {index : Nat} {step : Intent}
    {defaults : TriggerDefaults} :
    (given? path index step defaults).isSome = true ↔ step.IsTrigger := by
  rw [Option.isSome_iff_ne_none, ne_eq, TriggerDefinition.given?_eq_none_iff,
    TriggerDefinition.ofStep_eq_none_iff, not_or, Bool.not_eq_false,
    TriggerDefinition.isEnabled_iff, ← ne_eq, Option.ne_none_iff_exists']
  simp only [Text.afterStart?_eq_some_iff, Intent.IsTrigger]

/-! ## Documents -/

/-- What the steps of a pipeline give, in their order. -/
def Pipeline.gifts (p : Pipeline) (path : String) (defaults : TriggerDefaults) :
    List (TriggerDefinition ⊕ TriggerError) :=
  p.steps.zipIdx.filterMap fun s => given? path s.2 s.1 defaults

/-- What the scan of a pipeline yields. -/
structure Surveyed (path : String) (defaults : TriggerDefaults) (p : Pipeline)
    (found : List TriggerDefinition) (rejected : List TriggerError) : Prop where
  /-- The triggers are those among what the steps give, and the errors the rest. -/
  triggers : found = (p.gifts path defaults).filterMap Sum.getLeft?
  errors : rejected = (p.gifts path defaults).filterMap Sum.getRight?
  /-- A step gives something if it is there to declare a trigger, and nothing otherwise. -/
  gives : ∀ index step, (given? path index step defaults).isSome = true ↔ step.IsTrigger
  /-- What a step gives is the same in every pipeline, but for the place of the step. -/
  alone : ∀ index step, given? path index step defaults =
    (given? path 0 step defaults).map (moved index)
  wellFormed : ∀ d ∈ found, d.spec.WellFormed
  /-- If no two steps have one id, what a trigger starts is the step that gave it. -/
  starts : (p.steps.filterMap (·.id)).Nodup → ∀ d ∈ found, p.startIndex d.start = .ok d.stepIndex ∧
    ∃ step, p.steps[d.stepIndex]? = some step ∧
      given? path d.stepIndex step defaults = some (.inl d)

theorem Pipeline.triggers_eq (p : Pipeline) (path : String) (defaults : TriggerDefaults) :
    p.triggers path defaults = ((p.gifts path defaults).filterMap Sum.getLeft?,
      (p.gifts path defaults).filterMap Sum.getRight?) := by
  unfold triggers triggerResults gifts given?
  dsimp only
  simp only [List.filterMap_map, List.filterMap_filterMap]
  congr 2
  all_goals
    funext s
    dsimp only [Function.comp]
    rcases TriggerDefinition.ofStep path s.2 s.1 defaults with e | _ | d <;> rfl

/-- The start point of a trigger leads to its step. -/
theorem startIndex_start {path : String} {defaults : TriggerDefaults} {p : Pipeline} {step : Intent}
    {d : TriggerDefinition} (hids : (p.steps.filterMap (·.id)).Nodup)
    (hstep : p.steps[d.stepIndex]? = some step)
    (hd : TriggerDefinition.ofStep path d.stepIndex step defaults = .ok (some d)) :
    p.startIndex d.start = .ok d.stepIndex := by
  rw [startIndex_eq_ok_iff]
  have hid := TriggerDefinition.stepId_of_ofStep hd
  unfold TriggerDefinition.start
  cases hstepId : d.stepId with
  | none =>
    exact ⟨rfl, Nat.le_of_lt (List.getElem?_eq_some_iff.mp hstep).1⟩
  | some id =>
    rw [hstepId] at hid
    refine ⟨⟨step, hstep, hid.symm⟩, fun j other hj hother hsame => ?_⟩
    exact Nat.ne_of_lt hj (index_of_id hids hother hstep hsame hid.symm)

/-- **Scans yield what the steps declare.** Of a document with whatever payloads, every step that is
there to declare a trigger gives one, or the reason why it has none, by itself and in its turn; no
other step gives anything. What the triggers wait for is fit for use, and what they start is the
step that gave them, if no two steps have one id. -/
theorem surveyed_triggers (path : String) (defaults : TriggerDefaults) (p : Pipeline) :
    Surveyed path defaults p (p.triggers path defaults).1 (p.triggers path defaults).2 := by
  have hscanned := scanned_triggers path defaults p
  constructor
  case triggers => rw [Pipeline.triggers_eq]
  case errors => rw [Pipeline.triggers_eq]
  case gives => exact fun index step => isSome_given?_iff
  case alone => exact fun index step => TriggerDefinition.given?_eq_moved
  case wellFormed =>
    intro d hd
    obtain ⟨step, -, hofStep⟩ := (hscanned.mem_iff d).mp hd
    obtain ⟨suffix, kind, spec, -, -, -, hspec, heq⟩ :=
      TriggerDefinition.ofStep_eq_some_iff.mp hofStep
    rw [heq]
    exact TriggerDefinition.wellFormed_of_readSpec hspec
  case starts =>
    intro hids d hd
    obtain ⟨step, hstep, hofStep⟩ := (hscanned.mem_iff d).mp hd
    exact ⟨startIndex_start hids hstep hofStep, step, hstep,
      TriggerDefinition.given?_eq_inl_iff.mpr hofStep⟩

end Workflow
