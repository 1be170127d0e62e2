import Mathlib.Data.List.Forall2
import Workflow.Proofs.Cancellation
import Workflow.Proofs.Resolutions

/- A run among others and the same run alone. Runs share the registry and nothing else,
   so a run can only differ from itself by the ids that are made up for it and for its
   traces. Runs that are alike but for these ids stay so under the same answers and the
   same actions, and show the same but for the ids (`Run.Alike.course`). What is done
   around a runner is to each run the answers and actions that reach it, in their order,
   and so a run fares as it would alone (`runs_keep_to_themselves`). The payload of an
   invocation is made by what is registered, which may read the ids: where it does not
   (`Registry.Blind`), and where the ids are the same, so are the payloads. -/
namespace Workflow

/-! ## Without the ids -/

/-- The intent without the ids that are noted on it. -/
def Intent.unmarked (i : Intent) : Intent :=
  { i with note := i.note.map fun n => { n with traceId := none, runId := none } }

/-- The signal without the ids of its run and of the trace. -/
def Signal.unmarked : Signal → Signal
  | .event e => .event { e with runId := "" }
  | .invoke i => .invoke { i with runId := "", intent := i.intent.unmarked }

theorem Intent.asksDryRun_unmarked (i : Intent) : i.unmarked.asksDryRun = i.asksDryRun := by
  unfold asksDryRun unmarked
  cases i.note <;> rfl

/-- The ids do not count for what an intent is resolved to. -/
theorem resolve_of_unmarked (registry : Registry) (mappings : List Route) {x y : Intent}
    (h : x.unmarked = y.unmarked) : registry.resolve mappings x = registry.resolve mappings y :=
  calc registry.resolve mappings x = registry.resolve mappings x.unmarked := rfl
    _ = registry.resolve mappings y.unmarked := by rw [h]
    _ = registry.resolve mappings y := rfl

/-- Whether nothing that is registered reads the ids. -/
def Registry.Blind (registry : Registry) : Prop :=
  ∀ c ∈ registry, ∀ mapper, c.mapper = some mapper →
    ∀ x y : Intent, x.unmarked = y.unmarked → mapper x = mapper y

/-- Whether an intent can be led to a command by a resolution. -/
def Registry.Finds (registry : Registry) (mappings : List Route) (r : Resolution) : Prop :=
  ∃ intent, r ∈ registry.resolve mappings intent

theorem Registry.Finds.mapper {registry : Registry} {mappings : List Route} {r : Resolution}
    (h : registry.Finds mappings r) : r.mapper = none ∨ ∃ c ∈ registry, c.mapper = r.mapper := by
  obtain ⟨intent, hr⟩ := h
  obtain ⟨name, -, hname⟩ := List.mem_flatMap.mp hr
  have hserving := resolveName_serving registry mappings intent name
  generalize registry.resolveName mappings intent name = group at hname hserving
  cases hserving with
  | user _ narrowed =>
    obtain ⟨m, -, rfl⟩ := List.mem_map.mp hname
    exact .inl rfl
  | registry _ _ narrowed =>
    obtain ⟨c, hc, rfl⟩ := List.mem_map.mp hname
    exact .inr ⟨c, (List.mem_filter.mp (narrowed.mem hc)).1, rfl⟩
  | fallback =>
    obtain rfl := List.mem_singleton.mp hname
    exact .inl rfl

/-- Where nothing reads the ids, they do not count for the payload of a command. -/
theorem Registry.Blind.payload_eq {registry : Registry} {mappings : List Route} {r : Resolution}
    {x y : Intent} (h : registry.Blind) (hr : registry.Finds mappings r)
    (hxy : x.unmarked = y.unmarked) : r.payload x = r.payload y := by
  unfold Resolution.payload
  cases hmapper : r.mapper with
  | none =>
    show x.unmarked.payload = y.unmarked.payload
    rw [hxy]
  | some mapper =>
    rcases hr.mapper with hnone | ⟨c, hc, hsome⟩
    · rw [hmapper] at hnone
      cases hnone
    · exact h c hc mapper (hsome.trans hmapper) x y hxy

section Alike

variable (registry : Registry) (mappings : List Route)

/-- Signals that are the same but for the ids. Payloads are made by one resolution. -/
inductive Signal.Alike : Signal → Signal → Prop where
  | event (id id' : String) (h : Happening) : Alike (.event ⟨id, h⟩) (.event ⟨id', h⟩)
  | invoke {x y : Invocation} (r : Resolution) (found : registry.Finds mappings r)
      (intent : x.intent.unmarked = y.intent.unmarked) (command : x.command = y.command)
      (source : x.source = y.source) (cwd : x.cwd = y.cwd) (dryRun : x.dryRun = y.dryRun)
      (left : x.payload = r.payload x.intent) (right : y.payload = r.payload y.intent) :
      Alike (.invoke x) (.invoke y)

/-- Places of runs that are the same but for the ids. -/
inductive Phase.Alike : Phase → Phase → Prop where
  | head (i : Nat) : Alike (.head i) (.head i)
  | dispatching (i : Nat) {x y : Intent} {known : Option (List Resolution)}
      (intent : x.unmarked = y.unmarked)
      (found : ∀ left, known = some left → ∀ r ∈ left, registry.Finds mappings r) :
      Alike (.dispatching i x known) (.dispatching i y known)
  | awaiting (i : Nat) {x y : Intent} {left : List Resolution} (intent : x.unmarked = y.unmarked)
      (found : ∀ r ∈ left, registry.Finds mappings r) :
      Alike (.awaiting i x left) (.awaiting i y left)
  | closing (i : Nat) (success : Bool) : Alike (.closing i success) (.closing i success)
  | ending (status : RunStatus) : Alike (.ending status) (.ending status)
  | finished (result : Except PipelineError RunStatus) : Alike (.finished result) (.finished result)

/-- Runs that are the same but for the ids. -/
structure Run.Alike (a b : Run) : Prop where
  pipeline : a.pipeline = b.pipeline
  scope : a.scope = b.scope
  state : a.state = b.state
  executed : a.executed = b.executed
  phase : a.phase.Alike registry mappings b.phase

/-- Moves that are the same but for the ids of the traces. -/
inductive Move.Alike : Move → Move → Prop where
  | advance (trace trace' : String) :
      Alike (.advance ⟨registry, mappings, trace⟩) (.advance ⟨registry, mappings, trace'⟩)
  | answer (outcome : Outcome) : Alike (.answer outcome) (.answer outcome)
  | act (action : ControlAction) : Alike (.act action) (.act action)

end Alike

section Moves

variable {registry : Registry} {mappings : List Route} {a b : Run}

/-- Where nothing reads the ids, alike signals differ in nothing else. -/
theorem Signal.Alike.unmarked_eq {s t : Signal} (h : s.Alike registry mappings t)
    (blind : registry.Blind) : s.unmarked = t.unmarked := by
  cases h with
  | event => rfl
  | @invoke x y r found intent command source cwd dryRun left right =>
    have hpayload : x.payload = y.payload :=
      calc x.payload = r.payload x.intent := left
        _ = r.payload y.intent := blind.payload_eq found intent
        _ = y.payload := right.symm
    simp [Signal.unmarked, intent, command, source, cwd, dryRun, hpayload]

/-! ## Moves -/

theorem Phase.alike_next (p : Pipeline) (i : Nat) (success : Bool) :
    Phase.Alike registry mappings (Run.next p i success) (Run.next p i success) := by
  rcases Run.next_cases p i success with ⟨j, hhead⟩ | hending
  · rw [hhead]
    exact .head j
  · rw [hending]
    exact .ending .failure

theorem Run.Alike.enter (h : a.Alike registry mappings b) (trace trace' : String) (i : Nat)
    (step : Intent) :
    (a.enter ⟨registry, mappings, trace⟩ i step).1.Alike registry mappings
        (b.enter ⟨registry, mappings, trace'⟩ i step).1 ∧
      (a.enter ⟨registry, mappings, trace⟩ i step).2.Alike registry mappings
        (b.enter ⟨registry, mappings, trace'⟩ i step).2 := by
  obtain ⟨hpipeline, hscope, hstate, hexecuted, -⟩ := h
  unfold Run.enter
  rw [hscope]
  cases b.scope.ready step with
  | error e => exact ⟨⟨hpipeline, hscope, hstate, hexecuted, .finished _⟩, .event _ _ _⟩
  | ok ready =>
    cases ready with
    | control kind => exact ⟨⟨hpipeline, rfl, hstate, hexecuted, .closing i true⟩, .event _ _ _⟩
    | dispatch compiled =>
      have hunknown : ∀ left : List Resolution, none = some left →
          ∀ r ∈ left, registry.Finds mappings r := by
        intro left hleft
        cases hleft
      exact ⟨⟨hpipeline, rfl, hstate, hexecuted, .dispatching i rfl hunknown⟩, .event _ _ _⟩

theorem Run.Alike.close (h : a.Alike registry mappings b) (i : Nat) (success : Bool) :
    (a.close i success).1.Alike registry mappings (b.close i success).1 ∧
      (a.close i success).2.Alike registry mappings (b.close i success).2 := by
  obtain ⟨hpipeline, hscope, hstate, hexecuted, -⟩ := h
  unfold Run.close Run.stepId
  rw [hpipeline, hexecuted]
  exact ⟨⟨rfl, hscope, hstate, rfl, Phase.alike_next _ i success⟩, .event _ _ _⟩

theorem Run.Alike.serve (h : a.Alike registry mappings b) (i : Nat) {x y : Intent}
    (intent : x.unmarked = y.unmarked) (left : List Resolution)
    (found : ∀ r ∈ left, registry.Finds mappings r) :
    (a.serve i x left).1.Alike registry mappings (b.serve i y left).1 ∧
      (a.serve i x left).2.Alike registry mappings (b.serve i y left).2 := by
  cases left with
  | nil => exact h.close i true
  | cons r left =>
    obtain ⟨hr, hleft⟩ := List.forall_mem_cons.mp found
    have hdryRun : x.asksDryRun = y.asksDryRun := by
      rw [← x.asksDryRun_unmarked, intent, y.asksDryRun_unmarked]
    have hcwd : a.scope.cwd = b.scope.cwd := by rw [h.scope]
    exact ⟨⟨h.pipeline, h.scope, h.state, h.executed, .awaiting i intent hleft⟩,
      .invoke r hr intent rfl rfl hcwd hdryRun rfl rfl⟩

/-- Alike runs move alike. -/
theorem Run.Alike.advance? (h : a.Alike registry mappings b) (trace trace' : String) :
    Option.Rel (fun x y => x.1.Alike registry mappings y.1 ∧ x.2.Alike registry mappings y.2)
      (a.advance? ⟨registry, mappings, trace⟩) (b.advance? ⟨registry, mappings, trace'⟩) := by
  have henter := h.enter trace trace'
  have hclose := h.close
  have hserve := @h.serve
  obtain ⟨hpipeline, hscope, hstate, hexecuted, hphase⟩ := h
  unfold Run.advance?
  generalize a.phase = x at hphase
  generalize b.phase = y at hphase
  cases hphase with
  | head i =>
    dsimp only
    rw [hpipeline, hstate]
    cases b.pipeline.steps[i]? with
    | none => exact .some ⟨⟨hpipeline, hscope, hstate, hexecuted, .finished _⟩, .event _ _ _⟩
    | some step =>
      dsimp only
      by_cases hblocks : b.state.blocks = true
      · rw [if_pos hblocks, if_pos hblocks]
        exact .none
      · rw [if_neg hblocks, if_neg hblocks]
        by_cases hcancelled : b.state.cancelled = true
        · rw [if_pos hcancelled, if_pos hcancelled]
          exact .some ⟨⟨hpipeline, hscope, hstate, hexecuted, .finished _⟩, .event _ _ _⟩
        · rw [if_neg hcancelled, if_neg hcancelled]
          exact .some (henter i step)
  | @dispatching i x y known intent found =>
    -- the ids do not count where the commands are looked up
    have hlookup : registry.resolve mappings x = registry.resolve mappings y :=
      resolve_of_unmarked registry mappings intent
    have hfound : ∀ r ∈ known.getD (registry.resolve mappings y), registry.Finds mappings r := by
      cases known with
      | none => exact fun r hr => ⟨y, hr⟩
      | some left => exact found left rfl
    dsimp only [Surroundings.resolve]
    rw [hlookup]
    exact .some (hserve i intent _ hfound)
  | awaiting i intent found => exact .none
  | closing i success => exact .some (hclose i success)
  | ending status => exact .some ⟨⟨hpipeline, hscope, hstate, hexecuted, .finished _⟩, .event _ _ _⟩
  | finished result => exact .none

theorem Run.Alike.answer (h : a.Alike registry mappings b) (outcome : Outcome) :
    (a.answer outcome).Alike registry mappings (b.answer outcome) := by
  have hphase := h.phase
  unfold Run.answer
  generalize a.phase = x at hphase
  generalize b.phase = y at hphase
  cases hphase with
  | @awaiting i x y left intent found =>
    dsimp only
    rw [h.scope]
    by_cases hsuccess : outcome.success = true
    · rw [if_pos hsuccess, if_pos hsuccess]
      refine ⟨h.pipeline, rfl, h.state, h.executed, ?_⟩
      by_cases hleft : left.isEmpty = true
      · rw [if_pos hleft, if_pos hleft]
        exact .closing i true
      · rw [if_neg hleft, if_neg hleft]
        refine .dispatching i intent fun known hknown => ?_
        exact Option.some.inj hknown ▸ found
    · rw [if_neg hsuccess, if_neg hsuccess]
      exact ⟨h.pipeline, rfl, h.state, h.executed, .closing i false⟩
  | head | dispatching | closing | ending | finished => exact h

theorem Run.Alike.move (h : a.Alike registry mappings b) {m n : Move}
    (hm : m.Alike registry mappings n) :
    (a.move m).1.Alike registry mappings (b.move n).1 ∧
      List.Forall₂ (Signal.Alike registry mappings) (a.move m).2 (b.move n).2 := by
  cases hm with
  | advance trace trace' =>
    have hadvance := h.advance? trace trace'
    unfold Run.move
    dsimp only
    generalize a.advance? ⟨registry, mappings, trace⟩ = x at hadvance
    generalize b.advance? ⟨registry, mappings, trace'⟩ = y at hadvance
    cases hadvance with
    | some hnext => exact ⟨hnext.1, .cons hnext.2 .nil⟩
    | none => exact ⟨h, .nil⟩
  | answer outcome => exact ⟨h.answer outcome, .nil⟩
  | act action =>
    unfold Run.move
    dsimp only
    rw [h.state]
    cases b.state.act? action with
    | none => exact ⟨h, .nil⟩
    | some state =>
      refine ⟨⟨h.pipeline, h.scope, rfl, h.executed, h.phase⟩, ?_⟩
      cases action.happening? with
      | none => exact .nil
      | some happening => exact .cons (.event _ _ happening) .nil

/-- Alike runs fare alike under alike moves. -/
theorem Run.Alike.course (h : a.Alike registry mappings b) {moves moves' : List Move}
    (hm : List.Forall₂ (Move.Alike registry mappings) moves moves') :
    (a.course moves).1.Alike registry mappings (b.course moves').1 ∧
      List.Forall₂ (Signal.Alike registry mappings) (a.course moves).2 (b.course moves').2 := by
  induction hm generalizing a b with
  | nil => exact ⟨h, .nil⟩
  | cons hfirst _ ih =>
    obtain ⟨hnext, hshown⟩ := h.move hfirst
    obtain ⟨hlast, hrest⟩ := ih hnext
    exact ⟨hlast, List.rel_append hshown hrest⟩

end Moves

/-! ## Acts -/

/-- An act that brings a move about for the run of an id. The trace is made up anew. -/
inductive Move.Done (id : String) : Move → Act → Prop where
  | advance (around : Surroundings) (trace : String) :
      Done id (.advance around) (.advance id trace)
  | answer (outcome : Outcome) : Done id (.answer outcome) (.answer id outcome)
  | act (action : ControlAction) : Done id (.act action) (.control id action)

/-- The act that brings a move about with its own trace. -/
def Move.own (id : String) : Move → Act
  | .advance around => .advance id around.trace
  | .answer outcome => .answer id outcome
  | .act action => .control id action

theorem Move.done_own (id : String) (m : Move) : m.Done id (m.own id) := by
  cases m with
  | advance around => exact .advance around around.trace
  | answer outcome => exact .answer outcome
  | act action => exact .act action

theorem Move.Done.ne_register {id : String} {m : Move} {a : Act} (h : m.Done id a)
    (registration : Registration) : a ≠ .register registration := by
  intro ha
  rw [ha] at h
  cases h

namespace Runner

section Course

variable {r : Runner} {id : String} {registry : Registry} {mappings : List Route}

/-- Only a registration changes what runs share. -/
theorem perform_setting {a : Act} (ha : ∀ registration, a ≠ .register registration) :
    (r.perform a).1.registry = r.registry ∧ (r.perform a).1.mappings = r.mappings := by
  obtain ⟨runs, active, current, hframe⟩ := perform_frame (r := r) ha
  rw [hframe]
  exact ⟨rfl, rfl⟩

/-- While nothing is registered, every move is made with the same registry. -/
theorem movesOf_settled {acts : List Act}
    (settled : ∀ a ∈ acts, ∀ registration, a ≠ .register registration) :
    ∀ m ∈ r.movesOf id acts, m.Alike r.registry r.mappings m := by
  induction acts generalizing r with
  | nil => exact List.forall_mem_nil _
  | cons a rest ih =>
    obtain ⟨hfirst, hrest⟩ := List.forall_mem_cons.mp settled
    intro m hm
    rw [movesOf, List.mem_append, Option.mem_toList] at hm
    rcases hm with hm | hm
    · cases m with
      | answer outcome => exact .answer outcome
      | act action => exact .act action
      | advance around =>
        have haround : around = ⟨r.registry, r.mappings, around.trace⟩ := by
          cases a <;> simp [moveOf?] at hm
          rw [← hm.2]
        rw [haround]
        exact .advance _ _
    · obtain ⟨hregistry, hmappings⟩ := perform_setting (r := r) hfirst
      have hnext := ih hrest m hm
      rwa [hregistry, hmappings] at hnext

/-- An act that brings a move about is one like it, with the registry of the runner. -/
theorem moveOf?_done {m : Move} {a : Act} (h : m.Done id a)
    (hm : m.Alike r.registry r.mappings m) :
    ∃ m', r.moveOf? id a = some m' ∧ m.Alike r.registry r.mappings m' := by
  cases h with
  | answer outcome => exact ⟨.answer outcome, by simp [moveOf?], hm⟩
  | act action => exact ⟨.act action, by simp [moveOf?], hm⟩
  | advance around trace =>
    refine ⟨.advance ⟨r.registry, r.mappings, trace⟩, by simp [moveOf?], ?_⟩
    cases hm with
    | advance own _ => exact .advance own trace

theorem movesOf_done {moves : List Move} {acts : List Act}
    (h : List.Forall₂ (Move.Done id) moves acts)
    (hm : ∀ m ∈ moves, m.Alike r.registry r.mappings m) :
    List.Forall₂ (Move.Alike r.registry r.mappings) moves (r.movesOf id acts) := by
  induction h generalizing r with
  | nil => exact .nil
  | @cons m a moves acts hfirst _ ih =>
    obtain ⟨hown, hmoves⟩ := List.forall_mem_cons.mp hm
    obtain ⟨m', hmove, halike⟩ := moveOf?_done hfirst hown
    obtain ⟨hregistry, hmappings⟩ := perform_setting (r := r) hfirst.ne_register
    have hrest : List.Forall₂ (Move.Alike r.registry r.mappings) moves
        ((r.perform a).1.movesOf id acts) := by
      rw [← hregistry, ← hmappings] at hmoves ⊢
      exact ih hmoves
    show List.Forall₂ _ _ ((r.moveOf? id a).toList ++ (r.perform a).1.movesOf id acts)
    rw [hmove]
    exact .cons halike hrest

/-- With their own traces the moves are the same. -/
theorem movesOf_own {moves : List Move} (hm : ∀ m ∈ moves, m.Alike r.registry r.mappings m) :
    r.movesOf id (moves.map (Move.own id)) = moves := by
  induction moves generalizing r with
  | nil => rfl
  | cons m moves ih =>
    obtain ⟨hown, hmoves⟩ := List.forall_mem_cons.mp hm
    have hmove : r.moveOf? id (m.own id) = some m := by
      cases hown <;> simp [Move.own, moveOf?]
    obtain ⟨hregistry, hmappings⟩ := perform_setting (r := r) (m.done_own id).ne_register
    have hrest : (r.perform (m.own id)).1.movesOf id (moves.map (Move.own id)) = moves := by
      rw [← hregistry, ← hmappings] at hmoves
      exact ih hmoves
    rw [List.map_cons, movesOf, hmove, hrest]
    rfl

/-- What is done to one run shows signals of this run only. -/
theorem runId_of_done {moves : List Move} {acts : List Act} (hk : r.Keyed)
    (h : List.Forall₂ (Move.Done id) moves acts) : ∀ s ∈ (r.course acts).2, s.runId = id := by
  induction h generalizing r with
  | nil => exact List.forall_mem_nil _
  | @cons m a moves acts hfirst _ ih =>
    have hmove : ∃ m', r.moveOf? id a = some m' := by
      cases hfirst <;> exact ⟨_, by simp [moveOf?]; rfl⟩
    obtain ⟨m', hmove⟩ := hmove
    intro s hs
    rcases List.mem_append.mp hs with hs | hs
    · cases hrun : Table.get? r.runs id with
      | none =>
        rw [(perform_miss hrun hmove).2] at hs
        cases hs
      | some run =>
        rw [(perform_hit hk hrun hmove).1] at hs
        exact ((run.moved m').frame.2.2 s hs).trans (hk id run hrun)
    · exact ih (keyed_perform hk a) s hs

end Course

/-! ## A run alone -/

/-- What is the same of a run of an id among others and of one of another id alone. -/
structure Undisturbed (registry : Registry) (mappings : List Route) (id id' : String)
    (among alone : Runner × List Signal) : Prop where
  /-- They show the same but for the ids, with payloads made the same way. -/
  trace : List.Forall₂ (Signal.Alike registry mappings) (seen id among.2) alone.2
  unmarked : registry.Blind → (seen id among.2).map Signal.unmarked = alone.2.map Signal.unmarked
  result : among.1.result? id = alone.1.result? id'
  /-- They are at the same place, with the same scope, flags and count of steps. -/
  run : ∃ run run', Table.get? among.1.runs id = some run ∧
    Table.get? alone.1.runs id' = some run' ∧ run.Alike registry mappings run'

section Alone

variable {registry : Registry} {mappings : List Route} {id id' : String}
  {among alone : Runner × List Signal} {run run' : Run}

theorem result?_of_alike (hrun : Table.get? among.1.runs id = some run)
    (hrun' : Table.get? alone.1.runs id' = some run') (h : run.Alike registry mappings run') :
    among.1.result? id = alone.1.result? id' := by
  have hphase := h.phase
  unfold result?
  rw [hrun, hrun', Option.map_some, Option.map_some]
  generalize run.phase = x at hphase
  generalize run'.phase = y at hphase
  cases hphase <;> rfl

theorem undisturbed_of_alike
    (htrace : List.Forall₂ (Signal.Alike registry mappings) (seen id among.2) alone.2)
    (hrun : Table.get? among.1.runs id = some run)
    (hrun' : Table.get? alone.1.runs id' = some run') (h : run.Alike registry mappings run') :
    Undisturbed registry mappings id id' among alone := by
  constructor
  case trace => exact htrace
  case unmarked =>
    intro hblind
    rw [← List.forall₂_eq_eq_eq, List.forall₂_map_left_iff, List.forall₂_map_right_iff]
    exact htrace.imp fun s t hst => hst.unmarked_eq hblind
  case result => exact result?_of_alike hrun hrun' h
  case run => exact ⟨run, run', hrun, hrun', h⟩

end Alone

/-- A runner of its own shows nothing but the run. -/
theorem course_alone (registry : Registry) (mappings : List Route) (root : String) {id : String}
    {p : Pipeline} {options : RunOptions} {start : Nat} {moves : List Move} {acts : List Act}
    (hs : p.startIndex options.start = .ok start) (h : List.Forall₂ (Move.Done id) moves acts) :
    let own := fresh registry mappings root
    let begun := own.newRun id p options start
    let moves' := (own.perform (.begin id p options)).1.movesOf id acts
    Table.get? (own.course (.begin id p options :: acts)).1.runs id =
        some (begun.course moves').1 ∧
      (own.course (.begin id p options :: acts)).2 =
        [.event ⟨id, .pipelineStart p⟩] ++ (begun.course moves').2 := by
  intro own begun moves'
  have hk : own.Keyed := keyed_fresh registry mappings root
  have hnew : Table.get? (own.course []).1.runs id = none := rfl
  obtain ⟨hrun, hseen⟩ := course_of_begin hk hnew hs acts
  refine ⟨hrun, ?_⟩
  have hbegun : ∀ s ∈ (own.perform (.begin id p options)).2, s.runId = id := by
    rcases own.perform_begin id p options with ⟨_, -, -, -, hsig⟩ | ⟨-, hrest⟩
    · rw [hsig]
      simp [Signal.runId]
    · rw [hrest]
      exact List.forall_mem_nil _
  have hall : ∀ s ∈ (own.course (.begin id p options :: acts)).2, s.runId = id :=
    List.forall_mem_append.mpr ⟨hbegun, runId_of_done (keyed_perform hk _) h⟩
  exact (seen_all hall).symm.trans hseen

/-- Whatever other runs do on a runner meanwhile, and wherever they come in between, a run fares as
it does alone on a runner of its own when the same answers and the same actions reach it. While it
goes on nothing is registered. -/
theorem runs_keep_to_themselves (registry : Registry) (mappings : List Route) (root : String)
    (before : List Act) (id : String) (p : Pipeline) (options : RunOptions) (after : List Act)
    (hid : Table.get? ((fresh registry mappings root).course before).1.runs id = none)
    (settled : ∀ a ∈ after, ∀ registration, a ≠ .register registration) :
    let r := ((fresh registry mappings root).course before).1
    let history := (fresh registry mappings root).course (before ++ .begin id p options :: after)
    let moves := (r.perform (.begin id p options)).1.movesOf id after
    let own := fresh r.registry mappings root
    (∀ e, p.startIndex options.start = .error e →
      r.begin id p options = .error e ∧ r.perform (.begin id p options) = (r, []) ∧
        ∀ id', own.begin id' p options = .error e) ∧
    ∀ start, p.startIndex options.start = .ok start →
      (∀ id' acts, List.Forall₂ (Move.Done id') moves acts →
        Undisturbed r.registry mappings id id' history
          (own.course (.begin id' p options :: acts))) ∧
      -- under the same ids, payloads that read them are the same as well
      let again := own.course (.begin id p options :: moves.map (Move.own id))
      seen id history.2 = again.2 ∧
        Table.get? history.1.runs id = Table.get? again.1.runs id := by
  intro r history moves own
  have hk := keyed_fresh registry mappings root
  obtain ⟨hmappings, hroot⟩ : r.mappings = mappings ∧ r.workspaceRoot = root :=
    course_setting (fresh registry mappings root) before
  refine ⟨?_, ?_⟩
  · intro e he
    refine ⟨begin_error he id, ?_, fun id' => begin_error he id'⟩
    rcases r.perform_begin id p options with ⟨start, -, hs, -⟩ | ⟨-, hrest⟩
    · rw [he] at hs
      cases hs
    · exact hrest
  · intro start hs
    obtain ⟨hrun, hseen⟩ := course_of_begin hk hid hs after
    have hmoves : ∀ m ∈ moves, m.Alike r.registry mappings m := by
      obtain ⟨hregistry, hsame⟩ := perform_setting (r := r) (a := .begin id p options) nofun
      intro m hm
      have halike := movesOf_settled settled m hm
      rwa [hregistry, hsame, hmappings] at halike
    have hbegun : r.newRun id p options start = own.newRun id p options start := by
      unfold newRun
      rw [hroot]
      rfl
    have hkept : ∀ id', ∀ m ∈ moves, m.Alike (own.perform (.begin id' p options)).1.registry
        (own.perform (.begin id' p options)).1.mappings m := by
      intro id'
      obtain ⟨hregistry, hsame⟩ := perform_setting (r := own) (a := .begin id' p options) nofun
      rwa [hregistry, hsame]
    refine ⟨?_, ?_⟩
    · intro id' acts hdone
      obtain ⟨hregistry, hsame⟩ := perform_setting (r := own) (a := .begin id' p options) nofun
      obtain ⟨hrun', hshown⟩ := course_alone r.registry mappings root hs hdone
      have hmoves' := movesOf_done hdone (hkept id')
      rw [hregistry, hsame] at hmoves'
      have hnew : (r.newRun id p options start).Alike r.registry mappings
          (own.newRun id' p options start) := by
        rw [hbegun]
        exact ⟨rfl, rfl, rfl, rfl, .head start⟩
      obtain ⟨hlast, htrace⟩ := hnew.course hmoves'
      refine undisturbed_of_alike ?_ hrun hrun' hlast
      rw [hseen, hshown]
      exact .cons (.event id id' _) htrace
    · intro again
      have hdone : List.Forall₂ (Move.Done id) moves (moves.map (Move.own id)) := by
        rw [List.forall₂_map_right_iff, List.forall₂_same]
        exact fun m _ => m.done_own id
      obtain ⟨hrun', hshown⟩ := course_alone r.registry mappings root hs hdone
      rw [movesOf_own (hkept id)] at hrun' hshown
      rw [hseen, hrun, hshown, hrun', hbegun]
      exact ⟨rfl, rfl⟩

/-- A pipeline that notes a version and publishes it. -/
def versioned (version : String) : Pipeline where
  name := "release"
  steps := [
    { name := "system.setVar"
      payload := .obj [("name", .str "version"), ("value", .str version)] },
    { name := "notes.publish", payload := .obj [("version", .str "${var:version}")] }]

/-- Two runs that take turns, the one begun last being paused for a while. -/
def takingTurns : List Act :=
  [.controlCurrent .pause, .advance "q" "", .advance "r" "", .advance "q" "", .control "r" .resume,
    .advance "r" "", .advance "q" "first", .advance "r" "", .advance "q" "", .advance "r" "second",
    .advance "r" "", .answer "q" { success := false }, .answer "r" { success := true }]

/-- What reaches one of them. -/
def turnsOf (id trace : String) : List Act :=
  [.control id .pause, .advance id "", .control id .resume, .advance id "", .advance id "",
    .advance id trace, .advance id "", .answer id { success := true }]

theorem versioned_run_keeps_to_itself :
    Table.get? ((fresh [] [] "/").course [.begin "q" (versioned "1") {}]).1.runs "r" = none ∧
    (∀ a ∈ takingTurns, ∀ registration, a ≠ .register registration) ∧
    let history := (fresh [] [] "/").course
      ([.begin "q" (versioned "1") {}] ++ .begin "r" (versioned "2") {} :: takingTurns)
    let alone := (fresh [] [] "/").course (.begin "s" (versioned "2") {} :: turnsOf "s" "third")
    (seen "r" history.2).map Signal.unmarked = alone.2.map Signal.unmarked ∧
      history.1.result? "r" = alone.1.result? "s" := by
  have hsettled : ∀ a ∈ takingTurns, ∀ registration, a ≠ .register registration := by
    intro a ha registration hregister
    rw [hregister] at ha
    simp [takingTurns] at ha
  refine ⟨rfl, hsettled, ?_⟩
  obtain ⟨hundisturbed, -⟩ := (runs_keep_to_themselves [] [] "/" [.begin "q" (versioned "1") {}] "r"
    (versioned "2") {} takingTurns rfl hsettled).2 0 rfl
  have halone := hundisturbed "s" (turnsOf "s" "third")
    (.cons (.act _) <| .cons (.advance _ _) <| .cons (.act _) <| .cons (.advance _ _) <|
      .cons (.advance _ _) <| .cons (.advance _ _) <| .cons (.advance _ _) <| .cons (.answer _) .nil)
  exact ⟨halone.unmarked nofun, halone.result⟩

end Runner

end Workflow
