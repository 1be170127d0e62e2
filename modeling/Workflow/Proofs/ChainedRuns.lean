import Workflow.Proofs.Course
import Workflow.Rehearsal.Triggered

/- The runs that come of one firing. A chain knows how many runs came before its last
   one, so a firing is a walk along chains (`Chain.walk`): each is followed by the one
   that `after?` makes of it, as the run ended and as the disk was then. `Carries` is
   what every chain of the walk keeps of the trigger: the variables of the event, under
   the two that tell where the chain comes from. What the runs themselves assign has no
   part in it; a run begins with what its request says (`WatchStage.ask_spec`). A stage asks for
   the runs of the walk: `WatchStage.Asked` is all that asking for one can be, `goOn_walk` and
   `ended_walk` say what is asked for when one has ended. -/
namespace Workflow

/-- The document that a request is of and the place to begin in it, or why no run can begin. -/
def RunRequest.opens (r : RunRequest) (tree : FileTree) :
    Except PipelineError (Pipeline × Nat) := do
  let pipeline ← Pipeline.load tree r.pipeline
  let start ← pipeline.startIndex r.start
  .ok (pipeline, start)

theorem RunRequest.opens_eq_ok {r : RunRequest} {tree : FileTree} {pipeline : Pipeline}
    {start : Nat} (h : r.opens tree = .ok (pipeline, start)) :
    Pipeline.load tree r.pipeline = .ok pipeline ∧ pipeline.startIndex r.start = .ok start := by
  unfold opens at h
  cases hload : Pipeline.load tree r.pipeline with
  | error e => simp [hload, bind, Except.bind] at h
  | ok p =>
    cases hstart : p.startIndex r.start with
    | error e => simp [hload, hstart, bind, Except.bind] at h
    | ok i =>
      simp only [hload, hstart, bind, Except.bind, Except.ok.injEq, Prod.mk.injEq] at h
      obtain ⟨rfl, rfl⟩ := h
      exact ⟨rfl, hstart⟩

/-- The name by which scripts know the runs of a request. -/
def RunRequest.name (r : RunRequest) : String := (Path.fileName? r.pipeline).getD ""

namespace Chain

/-- How a run that was asked for ended: whether with success, and the disk at that time. -/
structure Ending where
  success : Bool
  tree : FileTree

/-- The chain with one more run, of a pipeline that was named. -/
def link (c : Chain) (settings : TriggerSettings) (target : String) : Chain :=
  { c with
    depth := c.depth + 1
    request := {
      pipeline := Path.join settings.workspaceRoot target
      start := .beginning
      vars := Table.insertAll c.request.vars [
        ("trigger_chain_from", c.request.pipeline),
        ("trigger_chain_depth", toString (c.depth + 1))] } }

theorem after?_eq_some_iff {c next : Chain} {settings : TriggerSettings} {tree : FileTree}
    {success : Bool} :
    c.after? settings tree success = some next ↔
      success = true ∧ c.depth < settings.maxChainDepth ∧
        ∃ target, c.target? tree = some target ∧ next = c.link settings target := by
  cases success with
  | false => simp [after?]
  | true =>
    cases ht : c.target? tree with
    | none => simp [after?, next?, ht]
    | some target =>
      by_cases hd : c.depth < settings.maxChainDepth
      · simp [after?, next?, ht, hd, link, eq_comm]
      · simp [after?, next?, ht, hd]

theorem depth_of_after? {c next : Chain} {settings : TriggerSettings} {tree : FileTree}
    {success : Bool} (h : c.after? settings tree success = some next) :
    c.depth < settings.maxChainDepth ∧ next.depth = c.depth + 1 := by
  obtain ⟨-, hd, target, -, rfl⟩ := after?_eq_some_iff.mp h
  exact ⟨hd, rfl⟩

/-- The chain after its last run has ended as that run does. -/
def onward? (settings : TriggerSettings) (ends : Nat → Ending) (c : Chain) : Option Chain :=
  c.after? settings (ends c.depth).tree (ends c.depth).success

/-- A chain and all that follow it, when the runs end as given. -/
def walk (settings : TriggerSettings) (ends : Nat → Ending) (c : Chain) : List Chain :=
  c :: match _ : c.onward? settings ends with
    | none => []
    | some next => walk settings ends next
termination_by settings.maxChainDepth - c.depth
decreasing_by
  have := depth_of_after? ‹c.onward? settings ends = some next›
  omega

/-- The runs that a chain asks for, when they end as given. -/
def requests (settings : TriggerSettings) (ends : Nat → Ending) (c : Chain) : List RunRequest :=
  (c.walk settings ends).map (·.request)

section Walk

variable (settings : TriggerSettings) (ends : Nat → Ending)

theorem walk_none {c : Chain} (h : c.onward? settings ends = none) :
    c.walk settings ends = [c] := by
  rw [walk]
  split
  · rfl
  · rename_i next hn
    rw [h] at hn
    contradiction

theorem walk_some {c next : Chain} (h : c.onward? settings ends = some next) :
    c.walk settings ends = c :: next.walk settings ends := by
  rw [walk]
  split
  · rename_i hn
    rw [h] at hn
    contradiction
  · rename_i next' hn
    rw [h] at hn
    rw [Option.some.inj hn]

theorem walk_zero (c : Chain) : (c.walk settings ends)[0]? = some c := by
  rw [walk]
  rfl

/-- Each chain of a walk is the one after its predecessor. -/
theorem walk_succ (c : Chain) (k : Nat) :
    (c.walk settings ends)[k + 1]? =
      ((c.walk settings ends)[k]?).bind (onward? settings ends) := by
  induction k generalizing c with
  | zero =>
    rw [walk_zero, Option.bind_some]
    cases h : c.onward? settings ends with
    | none => simp [walk_none settings ends h]
    | some next =>
      rw [walk_some settings ends h, List.getElem?_cons_succ, walk_zero]
  | succ k ih =>
    cases h : c.onward? settings ends with
    | none => simp [walk_none settings ends h]
    | some next =>
      rw [walk_some settings ends h, List.getElem?_cons_succ, List.getElem?_cons_succ]
      exact ih next

/-- What the chains of a walk keep, they all have. -/
theorem walk_invariant {P : Nat → Chain → Prop} {c : Chain} (hzero : P 0 c)
    (hstep : ∀ k b next, P k b → b.onward? settings ends = some next → P (k + 1) next)
    {k : Nat} {b : Chain} (hb : (c.walk settings ends)[k]? = some b) : P k b := by
  induction k generalizing b with
  | zero =>
    rw [walk_zero] at hb
    exact Option.some.inj hb ▸ hzero
  | succ k ih =>
    rw [walk_succ] at hb
    obtain ⟨before, hbefore, hnext⟩ := Option.bind_eq_some_iff.mp hb
    exact hstep k before b (ih hbefore) hnext

end Walk

/-- The variables of every chained run: those of the event, with where the run comes from. -/
def chainedVars (d : TriggerDefinition) (event : Json) (source : String) (depth : Nat) :
    Variables :=
  Table.insertAll (eventVariables d.kind d.stepId event) [
    ("trigger_chain_from", source),
    ("trigger_chain_depth", toString depth)]

/-- The two variables of a chain take the place of those set before. -/
theorem insertAll_link (vars : Variables) (source source' depth depth' : String) :
    Table.insertAll
        (Table.insertAll vars [("trigger_chain_from", source), ("trigger_chain_depth", depth)])
        [("trigger_chain_from", source'), ("trigger_chain_depth", depth')] =
      Table.insertAll vars [("trigger_chain_from", source'), ("trigger_chain_depth", depth')] := by
  have hne : "trigger_chain_from" ≠ "trigger_chain_depth" := by decide
  simp only [Table.insertAll, List.foldl_cons, List.foldl_nil]
  -- the source of the second link moves down to that of the first
  calc Table.insert "trigger_chain_depth" depth' (Table.insert "trigger_chain_from" source'
        (Table.insert "trigger_chain_depth" depth (Table.insert "trigger_chain_from" source vars)))
      = Table.insert "trigger_chain_depth" depth' (Table.insert "trigger_chain_depth" depth
          (Table.insert "trigger_chain_from" source'
            (Table.insert "trigger_chain_from" source vars))) := by
        rw [Table.insert_comm _ hne source' depth]
    _ = Table.insert "trigger_chain_depth" depth'
          (Table.insert "trigger_chain_from" source' vars) := by
        rw [Table.insert_insert, Table.insert_insert]

/-- What a chain keeps of the trigger and the event that it began with. -/
structure Carries (d : TriggerDefinition) (event : Json) (k : Nat) (c : Chain) : Prop where
  depth : c.depth = k
  onSuccess : c.onSuccess = d.onSuccess
  first : k = 0 → c.request = ⟨d.pipeline, d.start, eventVariables d.kind d.stepId event⟩
  chained : k ≠ 0 → ∃ source, c.request.vars = chainedVars d event source k

theorem Carries.begin (d : TriggerDefinition) (event : Json) :
    Carries d event 0 (.begin d event) where
  depth := rfl
  onSuccess := rfl
  first _ := rfl
  chained h := absurd rfl h

/-- A link sets the two variables of a chain on top of those of the event. -/
theorem Carries.link_vars {d : TriggerDefinition} {event : Json} {k : Nat} {c : Chain}
    (h : Carries d event k c) (settings : TriggerSettings) (target : String) :
    (c.link settings target).request.vars = chainedVars d event c.request.pipeline (k + 1) := by
  unfold link
  dsimp only
  rw [h.depth]
  by_cases hk : k = 0
  · rw [h.first hk]
    rfl
  · obtain ⟨source, hvars⟩ := h.chained hk
    rw [hvars]
    exact insertAll_link ..

theorem Carries.link {d : TriggerDefinition} {event : Json} {k : Nat} {c : Chain}
    (h : Carries d event k c) (settings : TriggerSettings) (target : String) :
    Carries d event (k + 1) (c.link settings target) where
  depth := congrArg (· + 1) h.depth
  onSuccess := h.onSuccess
  first hk := absurd hk (Nat.succ_ne_zero k)
  chained _ := ⟨c.request.pipeline, h.link_vars settings target⟩

/-- The pipeline that is named for after a run of a firing: by the trigger for after its own
pipeline, otherwise by the document that was run, as long as it is a pipeline. -/
def named? (d : TriggerDefinition) (tree : FileTree) (k : Nat) (r : RunRequest) :
    Option String :=
  match k with
  | 0 => d.onSuccess
  | _ + 1 => (Pipeline.load tree r.pipeline).toOption.bind Pipeline.chainTarget?

theorem Carries.target? {d : TriggerDefinition} {event : Json} {k : Nat} {c : Chain}
    (h : Carries d event k c) (tree : FileTree) :
    c.target? tree = named? d tree k c.request := by
  unfold Chain.target? named?
  rw [h.depth, h.onSuccess]
  cases k with
  | zero => rfl
  | succ k =>
    rw [if_neg (Nat.succ_ne_zero k)]
    cases Pipeline.load tree c.request.pipeline <;> rfl

/-- When a chain goes on, and with what. -/
theorem Carries.onward?_eq_some_iff {d : TriggerDefinition} {event : Json} {k : Nat}
    {c next : Chain} (h : Carries d event k c) {settings : TriggerSettings}
    {ends : Nat → Ending} :
    c.onward? settings ends = some next ↔
      (ends k).success = true ∧ k < settings.maxChainDepth ∧
        ∃ target, named? d (ends k).tree k c.request = some target ∧
          next = c.link settings target := by
  rw [onward?, after?_eq_some_iff, h.depth, h.target?]

/-- Every chain of the walk of a firing. -/
theorem carries_of_walk (settings : TriggerSettings) (d : TriggerDefinition) (event : Json)
    (ends : Nat → Ending) {k : Nat} {c : Chain}
    (hc : ((begin d event).walk settings ends)[k]? = some c) :
    Carries d event k c ∧ k ≤ settings.maxChainDepth := by
  refine walk_invariant settings ends
    (P := fun k c => Carries d event k c ∧ k ≤ settings.maxChainDepth)
    ⟨Carries.begin d event, Nat.zero_le _⟩ ?_ hc
  rintro k b next ⟨hb, -⟩ hnext
  obtain ⟨-, hk, target, -, rfl⟩ := hb.onward?_eq_some_iff.mp hnext
  exact ⟨hb.link settings target, hk⟩

/-! ### Ends that are known -/

/-- The ends of the runs of a chain as far as they are known. A run of which none is known has not
succeeded so far. -/
def Ending.known (endings : List Ending) (k : Nat) : Ending := endings[k]?.getD ⟨false, .empty⟩

theorem Ending.known_of_le {endings : List Ending} {k : Nat} (h : endings.length ≤ k) :
    (Ending.known endings k).success = false := by
  rw [known, List.getElem?_eq_none h]
  rfl

section Known

variable (settings : TriggerSettings) (d : TriggerDefinition) (event : Json)

/-- A walk depends at each place on the ends before it only. -/
theorem walk_congr {ends ends' : Nat → Ending} {k : Nat} (h : ∀ i < k, ends i = ends' i) :
    ((begin d event).walk settings ends)[k]? = ((begin d event).walk settings ends')[k]? := by
  induction k with
  | zero => rw [walk_zero, walk_zero]
  | succ k ih =>
    rw [walk_succ, walk_succ, ih fun i hi => h i (Nat.lt_succ_of_lt hi)]
    cases hb : ((begin d event).walk settings ends')[k]? with
    | none => rfl
    | some b =>
      have hdepth : b.depth = k := (carries_of_walk settings d event ends' hb).1.depth
      rw [Option.bind_some, Option.bind_some, onward?, onward?, hdepth, h k (Nat.lt_succ_self k)]

/-- Behind a place whose run has not succeeded there is none. -/
theorem walk_stops {ends : Nat → Ending} {k : Nat} (h : (ends k).success = false) :
    ((begin d event).walk settings ends)[k + 1]? = none := by
  rw [walk_succ]
  cases hb : ((begin d event).walk settings ends)[k]? with
  | none => rfl
  | some b =>
    have hdepth : b.depth = k := (carries_of_walk settings d event ends hb).1.depth
    rw [Option.bind_some, onward?, hdepth, h]
    rfl

/-- No more runs are asked for than one behind those whose ends are known. -/
theorem length_walk_known (endings : List Ending) :
    ((begin d event).walk settings (Ending.known endings)).length ≤ endings.length + 1 :=
  List.getElem?_eq_none_iff.mp (walk_stops settings d event (Ending.known_of_le (Nat.le_refl _)))

/-- When one more end comes to be known, the walk goes on as the chain does that waited for it. -/
theorem walk_known_concat {endings : List Ending} {c : Chain}
    (hc : ((begin d event).walk settings (Ending.known endings))[endings.length]? = some c)
    (e : Ending) :
    (begin d event).walk settings (Ending.known (endings ++ [e])) =
      (begin d event).walk settings (Ending.known endings) ++
        (c.after? settings e.tree e.success).toList := by
  have hlength : ((begin d event).walk settings (Ending.known endings)).length =
      endings.length + 1 :=
    Nat.le_antisymm (length_walk_known settings d event endings)
      (List.getElem?_eq_some_iff.mp hc).1
  have hdepth : c.depth = endings.length := (carries_of_walk settings d event _ hc).1.depth
  have hbefore : ∀ i < endings.length,
      Ending.known (endings ++ [e]) i = Ending.known endings i := by
    intro i hi
    rw [Ending.known, Ending.known, List.getElem?_append_left hi]
  have hlast : Ending.known (endings ++ [e]) endings.length = e := by simp [Ending.known]
  have hnext :
      ((begin d event).walk settings (Ending.known (endings ++ [e])))[endings.length + 1]? =
        c.after? settings e.tree e.success := by
    rw [walk_succ, walk_congr settings d event hbefore, hc, Option.bind_some, onward?, hdepth,
      hlast]
  apply List.ext_getElem?
  intro i
  rcases Nat.lt_or_ge i (endings.length + 1) with hi | hi
  · rw [List.getElem?_append_left (hlength ▸ hi)]
    exact walk_congr settings d event fun j hj => hbefore j (by omega)
  · rw [List.getElem?_append_right (hlength ▸ hi), hlength]
    obtain ⟨j, rfl⟩ := Nat.exists_eq_add_of_le hi
    rw [Nat.add_sub_cancel_left]
    cases j with
    | zero =>
      rw [Nat.add_zero, hnext]
      cases c.after? settings e.tree e.success <;> rfl
    | succ j =>
      have hpast : (endings ++ [e]).length ≤ endings.length + 1 + j := by simp
      rw [← Nat.add_assoc, walk_stops settings d event (Ending.known_of_le hpast)]
      cases c.after? settings e.tree e.success <;> rfl

end Known

/-- The runs asked for by a firing of a trigger, when they end as given. -/
structure OfFiring (settings : TriggerSettings) (d : TriggerDefinition) (event : Json)
    (ends : Nat → Ending) (rs : List RunRequest) : Prop where
  bounded : rs.length ≤ settings.maxChainDepth + 1
  first : rs[0]? = some ⟨d.pipeline, d.start, eventVariables d.kind d.stepId event⟩
  goes_on_iff : ∀ k r, rs[k]? = some r →
    (k + 1 < rs.length ↔ (ends k).success = true ∧ k < settings.maxChainDepth ∧
      ∃ target, named? d (ends k).tree k r = some target)
  next : ∀ k r r', rs[k]? = some r → rs[k + 1]? = some r' →
    ∃ target, named? d (ends k).tree k r = some target ∧
      r' = {
        pipeline :=
          if Path.isAbsolute target then target else Path.join settings.workspaceRoot target
        start := .beginning
        vars := chainedVars d event r.pipeline (k + 1) }

theorem requests_getElem? {settings : TriggerSettings} {ends : Nat → Ending} {c : Chain} {k : Nat}
    {r : RunRequest} :
    (c.requests settings ends)[k]? = some r ↔
      ∃ b, (c.walk settings ends)[k]? = some b ∧ b.request = r := by
  rw [requests, List.getElem?_map, Option.map_eq_some_iff]

theorem join_eq (root target : String) :
    Path.join root target = if Path.isAbsolute target then target else Path.join root target := by
  unfold Path.join
  split <;> rfl

theorem ofFiring (settings : TriggerSettings) (d : TriggerDefinition) (event : Json)
    (ends : Nat → Ending) :
    OfFiring settings d event ends ((begin d event).requests settings ends) := by
  have hcarries := fun {k c} => carries_of_walk settings d event ends (k := k) (c := c)
  constructor
  case bounded =>
    have hlength : ((begin d event).requests settings ends).length =
        ((begin d event).walk settings ends).length := List.length_map ..
    rw [hlength]
    by_cases hle : ((begin d event).walk settings ends).length ≤ settings.maxChainDepth + 1
    · exact hle
    · -- a walk that were longer would have a chain behind the deepest one
      have hlt : settings.maxChainDepth + 1 < ((begin d event).walk settings ends).length := by
        omega
      have := (hcarries (List.getElem?_eq_getElem hlt)).2
      omega
  case first =>
    exact requests_getElem?.mpr ⟨begin d event, walk_zero .., rfl⟩
  case goes_on_iff =>
    intro k r hr
    obtain ⟨b, hb, rfl⟩ := requests_getElem?.mp hr
    have hgo : k + 1 < ((begin d event).requests settings ends).length ↔
        ∃ next, b.onward? settings ends = some next := by
      have hplace : ∀ l : List Chain, k + 1 < l.length ↔ l[k + 1]?.isSome := by simp
      rw [requests, List.length_map, hplace, walk_succ, hb, Option.bind_some,
        Option.isSome_iff_exists]
    rw [hgo]
    have hcarry := (hcarries hb).1
    constructor
    · rintro ⟨next, hnext⟩
      obtain ⟨hs, hk, target, ht, -⟩ := hcarry.onward?_eq_some_iff.mp hnext
      exact ⟨hs, hk, target, ht⟩
    · rintro ⟨hs, hk, target, ht⟩
      exact ⟨_, hcarry.onward?_eq_some_iff.mpr ⟨hs, hk, target, ht, rfl⟩⟩
  case next =>
    intro k r r' hr hr'
    obtain ⟨b, hb, rfl⟩ := requests_getElem?.mp hr
    obtain ⟨next, hnext, rfl⟩ := requests_getElem?.mp hr'
    rw [walk_succ, hb, Option.bind_some] at hnext
    have hcarry := (hcarries hb).1
    obtain ⟨-, -, target, ht, rfl⟩ := hcarry.onward?_eq_some_iff.mp hnext
    refine ⟨target, ht, ?_⟩
    rw [← join_eq, ← hcarry.link_vars settings target]
    rfl

end Chain

namespace Rehearsal

/-- A run that a stage begins has the variables that it was given. -/
theorem Stage.begin_runs {s s' : Stage ω τ} {pipeline : Pipeline} {options : RunOptions}
    {number : String} {actions : List (StageAction τ)}
    (h : s.begin pipeline options = .ok (s', number, actions)) :
    s'.world = s.world ∧ s'.now = s.now ∧
      ∀ id run, Table.get? s'.runner.runs id = some run →
        Table.get? s.runner.runs id = some run ∨ run.scope.vars = options.vars := by
  unfold Stage.begin at h
  cases hstart : pipeline.startIndex options.start with
  | error e =>
    simp [Runner.begin_error hstart, bind, Except.bind] at h
  | ok start =>
    simp only [Runner.begin_ok hstart, bind, Except.bind, Except.ok.injEq, Prod.mk.injEq] at h
    obtain ⟨rfl, -, -⟩ := h
    refine ⟨rfl, rfl, fun id run hrun => ?_⟩
    dsimp only at hrun
    rw [Table.get?_insert] at hrun
    split at hrun
    · right
      rw [← Option.some.inj hrun]
      rfl
    · exact .inl hrun

/-- What has come of a run that was asked for. -/
inductive Reply where
  /-- The runner runs it, under an id. -/
  | run (id : String)
  /-- The script says whether it is a success. -/
  | scripted (success : Bool)
  deriving DecidableEq, Repr

namespace WatchStage

/-- The stage with a request noted. -/
def noted (s : WatchStage) (r : RunRequest) : WatchStage :=
  { s with world := { s.world with requests := (s.now, r) :: s.world.requests } }

/-- What a script says of the next run of a request. -/
def told (s : WatchStage) (results : Table (List (Option RunStatus))) (r : RunRequest) : Bool :=
  scripted results r.name ((Table.get? s.world.asked r.name).getD 0) == some .success

/-- The stage with a request noted and counted among those of its name. -/
def counted (s : WatchStage) (r : RunRequest) : WatchStage :=
  { s.noted r with world := { (s.noted r).world with
    asked := Table.insert r.name ((Table.get? s.world.asked r.name).getD 0 + 1) s.world.asked } }

/-- The stage with a request noted and a run begun for it, which the chain waits for. -/
def launched (s : WatchStage) (c : Chain) (id : String) (run : Run) : WatchStage :=
  { s.noted c.request with
    runner := { s.runner with
      runs := Table.insert id run s.runner.runs
      active := id :: s.runner.active
      current := some id }
    world := { (s.noted c.request).world with
      waiting := Table.insert id c s.world.waiting } }

/-- What it can be to ask for the last run of a chain. -/
inductive Asked (s : WatchStage) (c : Chain) :
    Option Reply → WatchStage × List (StageAction Errand) → Prop where
  /-- No run can begin: nothing waits for one, and nothing more is done. -/
  | refused {dryRun : Bool} {e : PipelineError} (runs : s.world.invoker = .runner dryRun)
      (closed : c.request.opens s.world.tree = .error e) : Asked s c none (s.noted c.request, [])
  /-- A run begins as the request says, its moves are next, and the chain waits for it. -/
  | begun {dryRun : Bool} {pipeline : Pipeline} {start : Nat} {id : String}
      (runs : s.world.invoker = .runner dryRun)
      (opens : c.request.opens s.world.tree = .ok (pipeline, start))
      (number : id = runName s.runner.runs.length) :
      Asked s c (some (.run id))
        (s.launched c id (s.runner.newRun id pipeline
            { start := c.request.start, vars := c.request.vars, dryRun } start),
          [.emit ⟨id, .pipelineStart pipeline⟩, .work (.turn (.advance id))])
  /-- The chain is told its outcome next. -/
  | told {results : Table (List (Option RunStatus))} {success : Bool}
      (script : s.world.invoker = .scripted results 0)
      (outcome : success = s.told results c.request) :
      Asked s c (some (.scripted success))
        (s.counted c.request, [.work (.turn (.errand (.goOn c success)))])
  /-- The chain is told its outcome when the time of the run is over. -/
  | later {results : Table (List (Option RunStatus))} {delay : Nat} {success : Bool}
      (script : s.world.invoker = .scripted results delay) (late : delay ≠ 0)
      (outcome : success = s.told results c.request) :
      Asked s c (some (.scripted success))
        ({ s.counted c.request with
            sleeping := s.sleeping ++ [(s.now + delay, .errand (.goOn c success))] }, [])

theorem asked (s : WatchStage) (c : Chain) : ∃ reply, s.Asked c reply (s.ask c) := by
  -- with the stage in its parts the invoker can be told apart without a trace in the others
  obtain ⟨runner, ⟨manager, tree, invoker, timestamp, names, waiting, requests⟩, scripts, calls,
    rules, now, ready, held, sleeping, log, trace⟩ := s
  cases invoker with
  | scripted results delay =>
    by_cases hdelay : delay = 0
    · subst hdelay
      exact ⟨_, .told rfl rfl⟩
    · unfold ask
      dsimp only
      rw [if_neg hdelay]
      exact ⟨_, .later rfl hdelay rfl⟩
  | runner dryRun =>
    unfold ask
    dsimp only
    cases hload : Pipeline.load tree c.request.pipeline with
    | error e =>
      have hopens : c.request.opens tree = .error e := by
        rw [RunRequest.opens, hload]
        rfl
      exact ⟨none, .refused rfl hopens⟩
    | ok pipeline =>
      have hopens : c.request.opens tree =
          (pipeline.startIndex c.request.start).bind fun start => .ok (pipeline, start) := by
        rw [RunRequest.opens, hload]
        rfl
      simp only [bind, Except.bind, Stage.begin]
      cases hstart : pipeline.startIndex c.request.start with
      | error e =>
        rw [Runner.begin_error (by exact hstart)]
        rw [hstart] at hopens
        exact ⟨none, .refused rfl hopens⟩
      | ok start =>
        rw [Runner.begin_ok (by exact hstart)]
        rw [hstart] at hopens
        exact ⟨_, .begun rfl hopens rfl⟩

/-- A run asked for is noted; the run that begins for it, if one does, has the variables of the
request and no others. -/
theorem ask_spec (s : WatchStage) (c : Chain) :
    (s.ask c).1.world.requests = (s.now, c.request) :: s.world.requests ∧
      ∀ id run, Table.get? (s.ask c).1.runner.runs id = some run →
        Table.get? s.runner.runs id = some run ∨ run.scope.vars = c.request.vars := by
  obtain ⟨reply, h⟩ := s.asked c
  generalize s.ask c = out at h ⊢
  cases h with
  | refused | told | later => exact ⟨rfl, fun id run hrun => .inl hrun⟩
  | @begun dryRun pipeline start new =>
    refine ⟨rfl, fun id run hrun => ?_⟩
    dsimp only [launched] at hrun
    rw [Table.get?_insert] at hrun
    split at hrun
    · right
      rw [← Option.some.inj hrun]
      rfl
    · exact .inl hrun

/-- What a chain that goes on asks for. -/
theorem goOn_requests (s : WatchStage) (c : Chain) (success : Bool) :
    (s.goOn c success).1.world.requests =
      ((c.after? s.world.manager.settings s.world.tree success).map
        fun next => (s.now, next.request)).toList ++ s.world.requests := by
  unfold goOn
  cases c.after? s.world.manager.settings s.world.tree success with
  | none => rfl
  | some next => exact (ask_spec s next).1

/-- The walk of a firing is what a stage makes of it, step by step. -/
theorem goOn_walk {s : WatchStage} {ends : Nat → Chain.Ending} {d : TriggerDefinition}
    {event : Json} {k : Nat} {c : Chain}
    (hc : ((Chain.begin d event).walk s.world.manager.settings ends)[k]? = some c)
    (htree : s.world.tree = (ends k).tree) :
    (s.goOn c (ends k).success).1.world.requests =
      ((((Chain.begin d event).requests s.world.manager.settings ends)[k + 1]?).map
        fun r => (s.now, r)).toList ++ s.world.requests := by
  have hdepth : c.depth = k := (Chain.carries_of_walk _ d event ends hc).1.depth
  rw [goOn_requests, Chain.requests, List.getElem?_map, Chain.walk_succ, hc, Option.bind_some,
    Chain.onward?, hdepth, htree, Option.map_map]
  rfl

/-- The stage when a chain no longer waits for a run. -/
def relieved (s : WatchStage) (id : String) : WatchStage :=
  { s with world := { s.world with waiting := Table.erase s.world.waiting id } }

/-- When a run is over, the chain that waits for it goes on as the run has ended. -/
theorem ended_of_waiting {s : WatchStage} {id : String} {c : Chain}
    (hwaiting : Table.get? s.world.waiting id = some c) {success : Bool}
    (hsuccess : success = true ↔ s.runner.result? id = some (.ok .success)) :
    s.ended id = (s.relieved id).goOn c success := by
  unfold ended
  rw [hwaiting]
  refine congrArg ((s.relieved id).goOn c) ?_
  rw [Bool.eq_iff_iff, hsuccess]
  cases s.runner.result? id with
  | none => simp
  | some result =>
    cases result with
    | error e => simp
    | ok status => cases status <;> simp [RunStatus.isSuccess]

/-- The chain that waits for a run asks for the run after it in its walk, or for none if the walk
ends there. -/
theorem ended_walk {s : WatchStage} {ends : Nat → Chain.Ending} {d : TriggerDefinition}
    {event : Json} {k : Nat} {c : Chain} {id : String}
    (hc : ((Chain.begin d event).walk s.world.manager.settings ends)[k]? = some c)
    (hwaiting : Table.get? s.world.waiting id = some c)
    (htree : s.world.tree = (ends k).tree)
    (hsuccess : (ends k).success = true ↔ s.runner.result? id = some (.ok .success)) :
    (s.ended id).1.world.requests =
      ((((Chain.begin d event).requests s.world.manager.settings ends)[k + 1]?).map
        fun r => (s.now, r)).toList ++ s.world.requests := by
  rw [ended_of_waiting hwaiting hsuccess]
  exact goOn_walk (s := s.relieved id) hc htree

end WatchStage

end Rehearsal

end Workflow
