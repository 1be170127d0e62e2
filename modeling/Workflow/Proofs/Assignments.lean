import Workflow.Proofs.DefaultDirectories
import Workflow.Proofs.Tokens

/- How long an assignment to a variable is seen, and by which tokens. A name keeps its value
   from step to step until something assigns it again (`get?_replay_of_unassigned`), and in
   the payload of each step a token of the name, outside any other token, is filled by itself
   (`Scope.puts_fill`). A name without blanks around it is found by its token, so the value is
   put there. A step may assign a name with blanks around it, though, and that name no token
   can ask for: its token is given what the trimmed name stands for
   (`assignments_of_run`). -/
namespace Workflow

/-! ## Names that keep their values -/

/-- Whether a change gives a value to a name. -/
def Change.Assigns (name : String) : Change → Prop
  | .assigned other _ => other = name
  | .exported vars => name ∈ vars.map (·.1)
  | .moved _ => False

namespace Scope

variable (scope : Scope) {name : String}

theorem get?_changed_of_unassigned {change : Change} (h : ¬ change.Assigns name) :
    Table.get? (scope.changed change).vars name = Table.get? scope.vars name := by
  cases change with
  | assigned other value => exact (Table.get?_insert ..).trans (if_neg h)
  | exported vars => exact Table.get?_insertAll_of_absent h
  | moved path => rfl

theorem get?_changes_of_unassigned {changes : List Change}
    (h : ∀ change ∈ changes, ¬ change.Assigns name) :
    Table.get? (changes.foldl changed scope).vars name = Table.get? scope.vars name := by
  induction changes generalizing scope with
  | nil => rfl
  | cons change rest ih =>
    rw [List.foldl_cons, ih _ fun later hlater => h later (List.mem_cons_of_mem _ hlater),
      scope.get?_changed_of_unassigned (h change List.mem_cons_self)]

/-- What a stint assigned is known until a later one assigns the name again. -/
theorem get?_replay_of_unassigned (earlier : List Stint) {between : List Stint} {w : Stint}
    {value : String} (hset : w.scope.ready w.step = .ok (.control (.setVar name value)))
    (hkept : ∀ u ∈ between, ∀ change ∈ u.changes, ¬ change.Assigns name) :
    Table.get? (scope.replay (earlier ++ w :: between)).vars name = some value := by
  have hchanges : w.changes = [.assigned name value] := by simp [Stint.changes, hset]
  have hreplay : scope.replay (earlier ++ w :: between) =
      (between.flatMap Stint.changes).foldl changed
        ((scope.replay earlier).changed (.assigned name value)) := by
    simp [replay, hchanges]
  rw [hreplay, get?_changes_of_unassigned]
  · exact (Table.get?_insert ..).trans (if_pos rfl)
  · intro change hchange
    obtain ⟨u, hu, hmem⟩ := List.mem_flatMap.mp hchange
    exact hkept u hu change hmem

end Scope

/-! ## Tokens in the payload of a step -/

/-- Whether a value has a text at the end of a path. -/
def Json.HasText (v : Json) (path : List Json.Key) (text : List Char) : Prop :=
  v.at? path = some (.str (String.ofList text))

/-- Whether a string of a value has the token of a name between these texts, outside any other
token. -/
structure Json.HasToken (v : Json) (path : List Json.Key) (pre : List Char) (name : String)
    (post : List Char) : Prop where
  closed : Template.Closed pre
  written : v.HasText path (pre ++ Template.Piece.source (.token name.toList) ++ post)

section HasToken

variable {v : Json} {path : List Json.Key} {pre post : List Char} {name : String}

theorem Json.HasToken.filled (h : v.HasToken path pre name post) (hname : '\x7d' ∉ name.toList)
    (vars : Variables) :
    (Template.fillJson vars v).HasText path (Template.fillChars vars pre ++
      Template.Piece.fill vars (.token name.toList) ++ Template.fillChars vars post) := by
  unfold Json.HasText
  rw [Template.at?_fillJson, h.written, Option.map_some, Template.fillJson, Template.fill,
    String.toList_ofList, Template.fillChars_token vars h.closed hname]

/-- A directory with a token in it is not left to the default. -/
theorem not_defaultedCwd_of_token {text : String}
    (h : text.toList = pre ++ Template.Piece.source (.token name.toList) ++ post) :
    defaultedCwd (some (.str text)) = false := by
  have hletter : 'v' ∈ (Text.trim text).toList := by
    rw [Text.trim, String.toList_ofList]
    refine Text.mem_trimChars ?_ (by decide)
    simp [h, Template.Piece.source, Template.opener]
  cases hdefaulted : defaultedCwd (some (.str text)) with
  | false => rfl
  | true =>
    simp only [defaultedCwd, Bool.or_eq_true, beq_iff_eq] at hdefaulted
    -- none of the texts that leave it to the default has this letter
    rcases hdefaulted with (htrim | htrim) | htrim <;>
    · rw [htrim] at hletter
      revert hletter
      decide

/-- A token in an object whose directory is left to the default is in another field. -/
theorem Json.HasToken.field_of_default {fields : List (String × Json)}
    (h : (Json.obj fields).HasToken path pre name post)
    (hleft : defaultedCwd (Table.get? fields "cwd") = true) :
    ∃ other rest, path = .field other :: rest ∧ other ≠ "cwd" := by
  have hwritten := h.written
  unfold Json.HasText at hwritten
  cases path with
  | nil => cases hwritten
  | cons key rest =>
    cases key with
    | item index => cases hwritten
    | field other =>
      refine ⟨other, rest, rfl, ?_⟩
      rintro rfl
      obtain ⟨part, hpart, hrest⟩ := Option.bind_eq_some_iff.mp hwritten
      rw [show Table.get? fields "cwd" = some part from hpart] at hleft
      -- the directory itself would be the text with the token, or hold it
      cases part with
      | str text =>
        cases rest with
        | nil =>
          cases hrest
          rw [not_defaultedCwd_of_token (String.toList_ofList)] at hleft
          cases hleft
        | cons key rest => cases key <;> cases hrest
      | null =>
        cases rest with
        | nil => cases hrest
        | cons key rest => cases key <;> cases hrest
      | _ => cases hleft

/-- The default for the directory is put where no token is. -/
theorem Json.HasToken.defaulted {fields : List (String × Json)}
    (h : (Json.obj fields).HasToken path pre name post) (cwd : String) :
    (applyDefaultCwd (.obj fields) cwd).HasToken path pre name post := by
  cases hleft : defaultedCwd (Table.get? fields "cwd") with
  | false =>
    have hsame : applyDefaultCwd (.obj fields) cwd = .obj fields := by
      simp [applyDefaultCwd, hleft]
    rw [hsame]
    exact h
  | true =>
    have hset : applyDefaultCwd (.obj fields) cwd = .obj (Table.insert "cwd" (.str cwd) fields) :=
      if_pos hleft
    obtain ⟨other, rest, rfl, hother⟩ := h.field_of_default hleft
    have hsame : Table.get? (Table.insert "cwd" (.str cwd) fields) other =
        Table.get? fields other := by
      rw [Table.get?_insert, if_neg hother.symm]
    refine ⟨h.closed, ?_⟩
    rw [hset]
    show (Table.get? (Table.insert "cwd" (.str cwd) fields) other).bind _ = _
    rw [hsame]
    exact h.written

end HasToken

/-- What comes of the tokens of a name in the payload of a step, when they are filled with a text:
in what the step is taken for and in what is dispatched for it. -/
structure Scope.Puts (scope : Scope) (name : String) (text : List Char) (step : Intent) : Prop where
  /-- The text is in the payload with its templates filled. -/
  filled : ∀ path pre post, step.payload.HasToken path pre name post →
    (step.resolve scope.vars).payload.HasText path
      (Template.fillChars scope.vars pre ++ text ++ Template.fillChars scope.vars post)
  /-- From that payload comes the kind of a step that the run does itself. -/
  control : ∀ kind, scope.ready step = .ok (.control kind) →
    StepKind.parse (step.resolve scope.vars) = .ok kind
  /-- The shell command of a git or docker step comes from it too. -/
  command : ∀ intent, scope.ready step = .ok (.dispatch intent) → ∃ kind,
    StepKind.parse (step.resolve scope.vars) = .ok kind ∧
      ∀ line, kind.shellCommand? = some line →
        intent.payload = .obj [("command", .str line), ("cwd", .str scope.cwd)]
  /-- Any other step is dispatched with the text in its payload. Of a shell command the payload is
  an object, or it is not dispatched. -/
  dispatched : ∀ intent kind, scope.ready step = .ok (.dispatch intent) →
    StepKind.parse (step.resolve scope.vars) = .ok kind → kind.shellCommand? = none →
    (step.name = terminalRunName → ∃ fields, step.payload = .obj fields) →
    ∀ path pre post, step.payload.HasToken path pre name post →
      intent.payload.HasText path
        (Template.fillChars scope.vars pre ++ text ++ Template.fillChars scope.vars post)

namespace Scope

variable (scope : Scope) (step : Intent) {kind : StepKind}

/-- A step is made ready by its kind, which comes from the payload with its templates filled. -/
theorem kind_of_ready {ready : ReadyStep} (h : scope.ready step = .ok ready) :
    ∃ kind, StepKind.parse (step.resolve scope.vars) = .ok kind ∧
      (kind.isControlFlow = true ∧ ready = .control kind ∨
        kind.isControlFlow = false ∧ ∃ intent, ready = .dispatch intent) := by
  unfold Scope.ready at h
  cases hkind : StepKind.parse (step.resolve scope.vars) with
  | error e => simp [hkind, bind, Except.bind] at h
  | ok kind =>
    refine ⟨kind, rfl, ?_⟩
    cases hcontrol : kind.isControlFlow with
    | true =>
      simp only [hkind, hcontrol, bind, Except.bind, if_true, Except.ok.injEq] at h
      exact .inl ⟨rfl, h.symm⟩
    | false =>
      simp only [hkind, hcontrol, bind, Except.bind, Bool.false_eq_true, if_false] at h
      split at h
      · cases h
      · cases h
        exact .inr ⟨rfl, _, rfl⟩

/-- A step that is no command of the engine's own is dispatched as it is, with its templates
filled. -/
theorem ready_plain (hkind : StepKind.parse (step.resolve scope.vars) = .ok kind)
    (hcontrol : kind.isControlFlow = false) (hnone : kind.shellCommand? = none)
    (hother : step.name ≠ terminalRunName) :
    scope.ready step = .ok (.dispatch (step.resolve scope.vars)) := by
  have hdefaulted : scope.defaulted step = step := if_neg hother
  simp [ready, hkind, hcontrol, hdefaulted, Intent.compile, Intent.toTerminal, hnone, bind,
    Except.bind]

/-- **A token in a step's payload** is filled by itself. -/
theorem puts_fill {name : String} (hname : '\x7d' ∉ name.toList) :
    scope.Puts name (Template.Piece.fill scope.vars (.token name.toList)) step := by
  constructor
  case filled =>
    intro path pre post htoken
    exact htoken.filled hname scope.vars
  case control =>
    intro kind hready
    obtain ⟨kind', hkind, ⟨-, hsame⟩ | ⟨-, intent, hsame⟩⟩ := scope.kind_of_ready step hready
    · cases hsame
      exact hkind
    · cases hsame
  case command =>
    intro intent hready
    obtain ⟨kind, hkind, -⟩ := scope.kind_of_ready step hready
    refine ⟨kind, hkind, fun line hline => ?_⟩
    rw [scope.ready_macro hkind hline] at hready
    cases hready
    rfl
  case dispatched =>
    intro intent kind hready hkind hnone hobject path pre post htoken
    by_cases hshell : step.name = terminalRunName
    · rw [scope.ready_shell hshell] at hready
      cases hready
      obtain ⟨fields, hfields⟩ := hobject hshell
      rw [hfields] at htoken
      show (Template.fillJson scope.vars (applyDefaultCwd step.payload scope.cwd)).HasText path _
      rw [hfields]
      exact (htoken.defaulted scope.cwd).filled hname scope.vars
    · obtain ⟨kind', hkind', ⟨-, hsame⟩ | ⟨hcontrol, -⟩⟩ := scope.kind_of_ready step hready
      · cases hsame
      · rw [hkind] at hkind'
        cases hkind'
        rw [scope.ready_plain step hkind hcontrol hnone hshell] at hready
        cases hready
        exact htoken.filled hname scope.vars

/-- What is seen of a name that was assigned a value. -/
structure Sees (scope : Scope) (name value : String) : Prop where
  known : Table.get? scope.vars name = some value
  /-- A name without blanks around it is found by its token: the value is put in its place, in any
  step. -/
  of_trimmed : Text.trim name = name → ∀ step, scope.Puts name value.toList step
  /-- No token of any text asks for a name with blanks around it. -/
  unasked : Text.trim name ≠ name → ∀ text, name ∉ Template.names text
  /-- In the place of its token stands what is known of the trimmed name, -/
  of_padded : Text.trim name ≠ name → ∀ other,
    Table.get? scope.vars (Text.trim name) = some other → ∀ step, scope.Puts name other.toList step
  /-- and the token itself if nothing is known of that. -/
  of_unknown : Text.trim name ≠ name → Table.get? scope.vars (Text.trim name) = none →
    ∀ step, scope.Puts name (Template.Piece.source (.token name.toList)) step

theorem sees_of_known {name value : String} (hknown : Table.get? scope.vars name = some value)
    (hname : '\x7d' ∉ name.toList) : scope.Sees name value := by
  constructor
  case known => exact hknown
  case of_trimmed =>
    intro htrimmed step
    rw [← Template.fill_token_of_known scope.vars (htrimmed.symm ▸ hknown)]
    exact scope.puts_fill step hname
  case unasked =>
    intro hpadded text hmem
    exact hpadded (Template.trim_of_mem_names hmem)
  case of_padded =>
    intro _ other hother step
    rw [← Template.fill_token_of_known scope.vars hother]
    exact scope.puts_fill step hname
  case of_unknown =>
    intro _ hunknown step
    rw [← Template.fill_token_of_unknown scope.vars hunknown]
    exact scope.puts_fill step hname

end Scope

/-! ## Runs -/

namespace Runner

/-- **How long an assignment is seen.** Whatever is done around a runner before and after a run is
begun, the run makes stints in its steps, and all that is shown of the steps is told of these. What
one of them assigned to a name is seen in every stint after it, and in front of the step that comes
next, as long as none in between assigns or exports the name again. -/
theorem assignments_of_run (registry : Registry) (mappings : List Route) (root : String)
    (before : List Act) (id : String) (p : Pipeline) (options : RunOptions) (start : Nat)
    (after : List Act)
    (hid : Table.get? ((fresh registry mappings root).course before).1.runs id = none)
    (hstart : options.start.Begins p start) :
    let history := (fresh registry mappings root).course (before ++ .begin id p options :: after)
    let initial : Scope := ⟨options.vars, options.cwd.getD root, options.dryRun⟩
    ∃ run stints told, Table.get? history.1.runs id = some run ∧
      told.filterMap Incident.signal? = ofSteps (seen id history.2) ∧
      Stayed p id initial run stints told ∧
      ∀ earlier w between rest name value, stints = earlier ++ w :: (between ++ rest) →
        w.scope.ready w.step = .ok (.control (.setVar name value)) → '\x7d' ∉ name.toList →
        (∀ u ∈ between, ∀ change ∈ u.changes, ¬ change.Assigns name) →
        (∀ u later, rest = u :: later → u.scope.Sees name value) ∧
          (rest = [] → run.scope.Sees name value) := by
  intro history initial
  have hs := startIndex_eq_ok_iff.mpr hstart
  obtain ⟨hrun, hseen⟩ := course_of_begin (keyed_fresh registry mappings root) hid hs after
  have hroot : ((fresh registry mappings root).course before).1.workspaceRoot = root :=
    (course_setting _ before).2
  generalize hr : ((fresh registry mappings root).course before).1 = r at *
  have hhead : (r.newRun id p options start).phase = .head start := rfl
  have hscope : (r.newRun id p options start).scope = initial := by
    rw [newRun, hroot]
  obtain ⟨stints, hchronicle⟩ :=
    chronicle_course hhead ((r.perform (.begin id p options)).1.movesOf id after)
  obtain ⟨hsame, hpipeline, -⟩ := Run.course_frame (r.newRun id p options start)
    ((r.perform (.begin id p options)).1.movesOf id after)
  rw [hscope] at hchronicle
  refine ⟨_, stints, _, hrun, ?_, stayed_of_chronicle hchronicle hsame hpipeline, ?_⟩
  · show _ = ofSteps (seen id ((fresh registry mappings root).course _).2)
    rw [hseen, ofSteps_append, incidents_signals]
    rfl
  · intro earlier w between rest name value hsplit hset hname hkept
    have hknown := initial.get?_replay_of_unassigned earlier hset hkept
    have hsees := Scope.sees_of_known _ hknown hname
    constructor
    · rintro u later rfl
      rw [hchronicle.scopes (earlier ++ w :: between) u later (by simp [hsplit])]
      exact hsees
    · rintro rfl
      rw [hchronicle.scope, hsplit, List.append_nil]
      exact hsees

/-- The first thing that is told of the steps of a run is the beginning of its first stint. -/
theorem Stayed.enters {p : Pipeline} {id : String} {initial : Scope} {run : Run}
    {stints : List Stint} {told : List Incident} (h : Stayed p id initial run stints told)
    {i : Nat} {step : Option String} {name : String} {more : List Signal}
    (htold : told.filterMap Incident.signal? =
      .event ⟨run.id, .stepStart i step name⟩ :: more) :
    ∃ w rest, stints = w :: rest ∧ w.index = i := by
  obtain ⟨later, hpending⟩ := h.told
  have hleft := hpending.left
  cases told with
  | nil => cases htold
  | cons x told =>
    cases stints with
    | nil => cases hleft
    | cons w rest =>
      obtain ⟨-, -, ready, hready⟩ := h.compiled [] w rest rfl
      obtain ⟨name', more', htrace⟩ := Stint.trace_of_ready run.id hready
      rw [List.flatMap_cons, htrace] at hleft
      obtain ⟨rfl, -⟩ := List.cons.inj hleft
      cases htold
      exact ⟨w, rest, rfl, rfl⟩

/-- A pipeline that gives a name to a version and asks for it. -/
def retagged (name : String) : Pipeline where
  name := "release"
  steps := [
    { name := "system.setVar", payload := .obj [("name", .str name), ("value", .str "v2")] },
    { name := "announce",
      payload := .obj [("text", .str ("now $\x7bvar:" ++ name ++ "\x7d"))] }]

/-- A run of it, up to the invocation of its last step. -/
def announced : List Act :=
  [.advance "r" "", .advance "r" "", .advance "r" "", .advance "r" ""]

/-- A plain name is seen where it is asked for. -/
theorem assignments_of_version :
    Table.get? ((fresh [] [] "/").course []).1.runs "r" = none ∧
    StartPoint.Begins (retagged "tag") .beginning 0 ∧
    ∃ (w u : Stint), w.scope.ready w.step = .ok (.control (.setVar "tag" "v2")) ∧
      (retagged "tag").steps[u.index]? = some u.step ∧ u.scope.Sees "tag" "v2" := by
  refine ⟨rfl, rfl, ?_⟩
  obtain ⟨run, stints, told, hrun, htold, hstayed, hseen⟩ :=
    assignments_of_run [] [] "/" [] "r" (retagged "tag") {} 0 announced rfl rfl
  have hid : run.id = "r" := by
    have hids : (Table.get? ((fresh [] [] "/").course
        ([] ++ .begin "r" (retagged "tag") {} :: announced)).1.runs "r").map Run.id =
          some "r" := by
      with_unfolding_all rfl
    rw [hrun] at hids
    exact Option.some.inj hids
  have hsignals : ∃ inv, ofSteps (seen "r" ((fresh [] [] "/").course
      ([] ++ .begin "r" (retagged "tag") {} :: announced)).2) =
        [.event ⟨"r", .stepStart 0 none "system.setVar"⟩, .event ⟨"r", .stepEnd 0 none true⟩,
          .event ⟨"r", .stepStart 1 none "announce"⟩, .invoke inv] :=
    ⟨_, by with_unfolding_all rfl⟩
  obtain ⟨inv, hinv⟩ := hsignals
  rw [hinv] at htold
  obtain ⟨w, rest, rfl, hw⟩ := hstayed.enters (hid ▸ htold)
  obtain ⟨hstep, hscope, -⟩ := hstayed.compiled [] w rest rfl
  rw [hw] at hstep
  have hset : w.scope.ready w.step = .ok (.control (.setVar "tag" "v2")) := by
    rw [hscope, ← Option.some.inj hstep]
    with_unfolding_all rfl
  cases rest with
  | nil =>
    -- more has been told than the stint in the first step tells
    obtain ⟨later, hpending⟩ := hstayed.told
    have hleft := congrArg List.length hpending.left
    have hlong := told.length_filterMap_le Incident.signal?
    rw [htold] at hlong
    simp [Stint.trace, hset] at hleft hlong
    omega
  | cons u rest =>
    obtain ⟨hsees, -⟩ := hseen [] w [] (u :: rest) "tag" "v2" rfl hset (by decide) (by simp)
    exact ⟨w, u, hset, (hstayed.compiled [w] u rest rfl).1, hsees u rest rfl⟩

/-- A name with blanks around it is assigned, and its token is left as it is. -/
theorem padded_name_is_lost :
    (∃ step ∈ (retagged " tag ").steps, Scope.ready ⟨[], "/", false⟩ step =
      .ok (.control (.setVar " tag " "v2"))) ∧
    '\x7d' ∉ " tag ".toList ∧
    (∃ step ∈ (retagged " tag ").steps,
      step.payload.HasToken [.field "text"] "now ".toList " tag " []) ∧
    ¬ ∀ inv, .invoke inv ∈ seen "r" ((fresh [] [] "/").course
        ([] ++ .begin "r" (retagged " tag ") {} :: announced)).2 →
      inv.intent.text? "text" = some "now v2" := by
  refine ⟨⟨_, List.mem_cons_self, by with_unfolding_all rfl⟩, by decide,
    ⟨_, List.mem_cons_of_mem _ List.mem_cons_self, ?_⟩, ?_⟩
  · constructor
    case closed => exact Template.closed_of_not_mem (by decide)
    case written => with_unfolding_all rfl
  · intro hall
    have hlast : ((seen "r" ((fresh [] [] "/").course
        ([] ++ .begin "r" (retagged " tag ") {} :: announced)).2).getLast?.bind invocation?).map
          (·.intent.text? "text") = some (some "now $\x7bvar: tag \x7d") := by
      decide +kernel
    obtain ⟨inv, hinv, htext⟩ := Option.map_eq_some_iff.mp hlast
    obtain ⟨signal, hsignal, hinvoked⟩ := Option.bind_eq_some_iff.mp hinv
    cases signal with
    | event e => cases hinvoked
    | invoke i =>
      cases hinvoked
      rw [hall inv (List.mem_of_getLast? hsignal)] at htext
      revert htext
      decide

end Runner

end Workflow
