import Workflow.Pipeline.Document
import Workflow.Proofs.Itinerary

/- What a pipeline is warned of, and what a pipeline without warnings is spared. The check walks
   over the steps with the ids seen so far (`checkSteps_valid`); it warns of a step whose id an
   earlier one has, and of a branch to an id that no step has (`checked`). When it warns of
   nothing, each branch leads to the one step with its id, so a failed step that names one never
   ends a run (`Spared`). -/
namespace Workflow

namespace Pipeline

/-! ## Warnings -/

/-- The warning for a step at a place, if an earlier one has its id. -/
def repeats? (steps : List Intent) (step : Intent × Nat) : Option Warning :=
  step.1.id.bind fun id =>
    if (steps.take step.2).any (·.id == some id) then some (.duplicateId id step.2) else none

/-- The warning for a step that branches to an id, if no step has it. -/
def strays? (steps : List Intent) (step : Intent) : Option Warning :=
  step.onFailure.bind fun target =>
    if steps.any (·.id == some target) then none else some (.unknownTarget step.label target)

/-- The steps are walked over with those in front of them, of which only the ids count. -/
theorem checkSteps_valid {steps : List Intent} (h : ∀ s ∈ steps, Text.blank s.name = false)
    (front : List Intent) {seen : List String}
    (hseen : ∀ id, seen.contains id = front.any (·.id == some id)) :
    checkSteps front.length seen steps =
      .ok ((steps.zipIdx front.length).filterMap (repeats? (front ++ steps))) := by
  induction steps generalizing front seen with
  | nil => rfl
  | cons step rest ih =>
    obtain ⟨hstep, hrest⟩ := List.forall_mem_cons.mp h
    have hlength : (front ++ [step]).length = front.length + 1 := by simp
    have hfront : (front ++ step :: rest).take front.length = front := by simp
    have hsplit : front ++ [step] ++ rest = front ++ step :: rest := by simp
    rw [checkSteps, if_neg (by simp [hstep]), List.zipIdx_cons, List.filterMap_cons, repeats?]
    dsimp only
    rw [hfront]
    cases hid : step.id with
    | none =>
      have hseen' : ∀ id, seen.contains id = (front ++ [step]).any (·.id == some id) := by
        intro id
        rw [hseen]
        simp [hid]
      have hlater := ih hrest (front ++ [step]) hseen'
      rw [hlength, hsplit] at hlater
      exact hlater
    | some id =>
      have hseen' : ∀ other, (id :: seen).contains other =
          (front ++ [step]).any (·.id == some other) := by
        intro other
        rw [List.contains_cons, hseen, List.any_append, List.any_cons, hid, List.any_nil,
          Bool.or_false, Option.some_beq_some, Bool.or_comm, BEq.comm]
      have hlater := ih hrest (front ++ [step]) hseen'
      rw [hlength, hsplit] at hlater
      dsimp only
      rw [hlater, Option.bind_some, ← hseen]
      cases seen.contains id <;> rfl

/-- Whether the first step with a blank intent stands at a place. -/
def FirstBlank (steps : List Intent) (k : Nat) : Prop :=
  (∃ s, steps[k]? = some s ∧ Text.blank s.name = true) ∧
    ∀ j s, j < k → steps[j]? = some s → Text.blank s.name = false

theorem FirstBlank.tail {first : Intent} {rest : List Intent} {k : Nat}
    (h : FirstBlank (first :: rest) (k + 1)) :
    Text.blank first.name = false ∧ FirstBlank rest k :=
  ⟨h.2 0 first (Nat.succ_pos k) rfl, h.1, fun j s hj hs => h.2 (j + 1) s (Nat.succ_lt_succ hj) hs⟩

/-- A walk that comes to a step with a blank intent ends there. -/
theorem checkSteps_blank {steps : List Intent} {k : Nat} (h : FirstBlank steps k) (i : Nat)
    (seen : List String) : checkSteps i seen steps = .error (.blankIntent (i + k)) := by
  induction steps generalizing k i seen with
  | nil =>
    obtain ⟨⟨s, hs, -⟩, -⟩ := h
    cases hs
  | cons first rest ih =>
    cases k with
    | zero =>
      obtain ⟨⟨s, hs, hblank⟩, -⟩ := h
      obtain rfl := Option.some.inj hs
      rw [checkSteps, if_pos hblank]
      rfl
    | succ k =>
      obtain ⟨hfirst, hrest⟩ := h.tail
      rw [checkSteps, if_neg (by simp [hfirst])]
      cases first.id with
      | none =>
        dsimp only
        rw [ih hrest, Nat.add_right_comm, Nat.add_assoc]
      | some id =>
        dsimp only
        rw [ih hrest, Nat.add_right_comm, Nat.add_assoc]
        rfl

/-- Some step has a blank intent, or none has. -/
theorem firstBlank_or (steps : List Intent) :
    (∃ k, FirstBlank steps k) ∨ ∀ s ∈ steps, Text.blank s.name = false := by
  cases hfind : steps.findIdx? (Text.blank ·.name) with
  | none =>
    refine .inr fun s hs => ?_
    simpa using List.findIdx?_eq_none_iff.mp hfind s hs
  | some k =>
    obtain ⟨hk, hblank, hbefore⟩ := List.findIdx?_eq_some_iff_getElem.mp hfind
    refine .inl ⟨k, ⟨steps[k], List.getElem?_eq_getElem hk, hblank⟩, fun j s hj hs => ?_⟩
    obtain ⟨hlt, rfl⟩ := List.getElem?_eq_some_iff.mp hs
    simpa using hbefore j hj

/-- Whether a step with an id stands at a place. -/
def StepWith (p : Pipeline) (id : String) (i : Nat) : Prop :=
  ∃ s, p.steps[i]? = some s ∧ s.id = some id

/-- Whether no two steps have the same id. -/
def DistinctIds (p : Pipeline) : Prop :=
  ∀ id i j, p.StepWith id i → p.StepWith id j → i = j

/-- Whether each step that branches does so to an id that a step has. -/
def BranchesExist (p : Pipeline) : Prop :=
  ∀ s ∈ p.steps, ∀ target, s.onFailure = some target → ∃ i, p.StepWith target i

section Clean

variable {p : Pipeline}

theorem exists_stepWith_iff {id : String} :
    (∃ i, p.StepWith id i) ↔ p.steps.any (·.id == some id) = true := by
  rw [List.any_eq_true]
  constructor
  · rintro ⟨i, s, hs, hid⟩
    exact ⟨s, List.mem_of_getElem? hs, by simp [hid]⟩
  · rintro ⟨s, hs, hid⟩
    obtain ⟨i, hi⟩ := List.mem_iff_getElem?.mp hs
    exact ⟨i, s, hi, by simpa using hid⟩

theorem any_take_iff {id : String} {j : Nat} :
    (p.steps.take j).any (·.id == some id) = true ↔ ∃ i, i < j ∧ p.StepWith id i := by
  rw [List.any_eq_true]
  constructor
  · rintro ⟨s, hs, hid⟩
    obtain ⟨i, hi⟩ := List.mem_iff_getElem?.mp hs
    rw [List.getElem?_take] at hi
    split at hi
    case isTrue hlt => exact ⟨i, hlt, s, hi, by simpa using hid⟩
    case isFalse => cases hi
  · rintro ⟨i, hlt, s, hs, hid⟩
    refine ⟨s, List.mem_iff_getElem?.mpr ⟨i, ?_⟩, by simp [hid]⟩
    rw [List.getElem?_take, if_pos hlt, hs]

theorem repeats?_eq_none_iff {s : Intent} {j : Nat} :
    repeats? p.steps (s, j) = none ↔
      ∀ id, s.id = some id → ∀ i, i < j → ¬ p.StepWith id i := by
  unfold repeats?
  cases s.id with
  | none => simp
  | some id =>
    rw [Option.bind_some, ite_eq_right_iff, any_take_iff]
    simp

theorem repeats_eq_nil_iff :
    p.steps.zipIdx.filterMap (repeats? p.steps) = [] ↔ p.DistinctIds := by
  simp only [List.filterMap_eq_nil_iff, Prod.forall, List.mem_zipIdx_iff_getElem?,
    repeats?_eq_none_iff]
  constructor
  · -- of two places of an id the later one would be warned of
    intro hnone id i j hi hj
    obtain ⟨s, hs, hsid⟩ := hi
    obtain ⟨t, ht, htid⟩ := hj
    rcases Nat.lt_trichotomy i j with hlt | heq | hlt
    · exact absurd ⟨s, hs, hsid⟩ (hnone t j ht id htid i hlt)
    · exact heq
    · exact absurd ⟨t, ht, htid⟩ (hnone s i hs id hsid j hlt)
  · intro hdistinct s j hs id hid i hlt hi
    exact Nat.ne_of_lt hlt (hdistinct id i j hi ⟨s, hs, hid⟩)

theorem strays_eq_nil_iff : p.steps.filterMap (strays? p.steps) = [] ↔ p.BranchesExist := by
  rw [List.filterMap_eq_nil_iff]
  refine forall₂_congr fun s _ => ?_
  unfold strays?
  simp only [exists_stepWith_iff]
  cases s.onFailure with
  | none => simp
  | some target => simp

theorem checkBranches_eq (p : Pipeline) :
    p.checkBranches = p.steps.filterMap (strays? p.steps) := by
  refine congrArg (p.steps.filterMap ·) (funext fun s => ?_)
  unfold strays?
  cases s.onFailure with
  | none => rfl
  | some target =>
    have hindex : (p.stepIndex? target).isNone = !p.steps.any (·.id == some target) := by
      rw [Bool.eq_iff_iff, Option.isNone_iff_eq_none, stepIndex?_eq_none_iff]
      simp
    dsimp only
    rw [hindex, Option.bind_some]
    cases p.steps.any (·.id == some target) <;> rfl

/-- Whether all names that a pipeline has to have are there. -/
def Named (p : Pipeline) : Prop :=
  Text.blank p.name = false ∧ ∀ s ∈ p.steps, Text.blank s.name = false

/-- The three ways in which a check can come out. -/
theorem validate_cases (p : Pipeline) :
    (Text.blank p.name = true ∧ p.validate = .error .blankName) ∨
      (∃ k, Text.blank p.name = false ∧ FirstBlank p.steps k ∧
        p.validate = .error (.blankIntent k)) ∨
      (p.Named ∧ p.validate = .ok (p.steps.zipIdx.filterMap (repeats? p.steps) ++
        p.steps.filterMap (strays? p.steps))) := by
  cases hname : Text.blank p.name with
  | true => exact .inl ⟨rfl, if_pos hname⟩
  | false =>
    have hunnamed : ¬ Text.blank p.name = true := by simp [hname]
    rcases firstBlank_or p.steps with ⟨k, hk⟩ | hsteps
    · refine .inr (.inl ⟨k, rfl, hk, ?_⟩)
      rw [validate, if_neg hunnamed, checkSteps_blank hk, Nat.zero_add]
      rfl
    · refine .inr (.inr ⟨⟨hname, hsteps⟩, ?_⟩)
      have hwalk : checkSteps 0 [] p.steps =
          .ok (p.steps.zipIdx.filterMap (repeats? p.steps)) :=
        checkSteps_valid hsteps [] fun id => rfl
      rw [validate, if_neg hunnamed, hwalk, checkBranches_eq]
      rfl

/-- What the check of a pipeline comes to. -/
structure Checked (p : Pipeline) : Prop where
  fails_iff : (∃ e, p.validate = .error e) ↔
    Text.blank p.name = true ∨ ∃ s ∈ p.steps, Text.blank s.name = true
  blank_name : Text.blank p.name = true → p.validate = .error .blankName
  blank_intent : Text.blank p.name = false → ∀ k, FirstBlank p.steps k →
    p.validate = .error (.blankIntent k)
  /-- Ids that an earlier step has, and then branches to ids that no step has. -/
  warned : p.Named → p.validate =
    .ok (p.steps.zipIdx.filterMap (repeats? p.steps) ++ p.steps.filterMap (strays? p.steps))
  clean_iff : p.validate = .ok [] ↔ p.Named ∧ p.DistinctIds ∧ p.BranchesExist

theorem FirstBlank.mem {steps : List Intent} {k : Nat} (h : FirstBlank steps k) :
    ∃ s ∈ steps, Text.blank s.name = true := by
  obtain ⟨⟨s, hs, hblank⟩, -⟩ := h
  exact ⟨s, List.mem_of_getElem? hs, hblank⟩

theorem FirstBlank.unique {steps : List Intent} {j k : Nat} (hj : FirstBlank steps j)
    (hk : FirstBlank steps k) : j = k := by
  obtain ⟨⟨s, hs, hsblank⟩, hbefore⟩ := hj
  obtain ⟨⟨t, ht, htblank⟩, hbefore'⟩ := hk
  rcases Nat.lt_trichotomy j k with hlt | heq | hlt
  · exact absurd (hsblank.symm.trans (hbefore' j s hlt hs)) (by simp)
  · exact heq
  · exact absurd (htblank.symm.trans (hbefore k t hlt ht)) (by simp)

theorem Named.not_blank (h : p.Named) :
    ¬ (Text.blank p.name = true ∨ ∃ s ∈ p.steps, Text.blank s.name = true) := by
  rintro (hname | ⟨s, hs, hblank⟩)
  · exact absurd (hname.symm.trans h.1) (by simp)
  · exact absurd (hblank.symm.trans (h.2 s hs)) (by simp)

theorem checked (p : Pipeline) : p.Checked := by
  rcases p.validate_cases with ⟨hname, hvalidate⟩ | ⟨k, hname, hk, hvalidate⟩ | ⟨hnamed, hvalidate⟩
  · have hnot : ¬ p.Named := fun h => h.not_blank (.inl hname)
    constructor
    case fails_iff => exact iff_of_true ⟨_, hvalidate⟩ (.inl hname)
    case blank_name => exact fun _ => hvalidate
    case blank_intent => exact fun h => absurd (hname.symm.trans h) (by simp)
    case warned => exact fun h => absurd h hnot
    case clean_iff => exact iff_of_false (by simp [hvalidate]) fun h => hnot h.1
  · have hnot : ¬ p.Named := fun h => h.not_blank (.inr hk.mem)
    constructor
    case fails_iff => exact iff_of_true ⟨_, hvalidate⟩ (.inr hk.mem)
    case blank_name => exact fun h => absurd (hname.symm.trans h) (by simp)
    case blank_intent =>
      intro _ j hj
      rw [hj.unique hk]
      exact hvalidate
    case warned => exact fun h => absurd h hnot
    case clean_iff => exact iff_of_false (by simp [hvalidate]) fun h => hnot h.1
  · have hnot := hnamed.not_blank
    constructor
    case fails_iff => exact iff_of_false (by simp [hvalidate]) hnot
    case blank_name => exact fun h => absurd (.inl h) hnot
    case blank_intent => exact fun _ j hj => absurd (.inr hj.mem) hnot
    case warned => exact fun _ => hvalidate
    case clean_iff =>
      rw [hvalidate, Except.ok.injEq, List.append_eq_nil_iff, repeats_eq_nil_iff,
        strays_eq_nil_iff]
      exact (and_iff_right hnamed).symm

end Clean

end Pipeline

/-! ## Runs without warnings -/

section Runs

variable {p : Pipeline} {start : Nat} {run : Run} {visits : List Visit} {shown : List Signal}

theorem Pipeline.FirstAt.only {id : String} {i j : Nat} (h : p.FirstAt id i)
    (hdistinct : p.DistinctIds) (hj : p.StepWith id j) : j = i :=
  hdistinct id j i hj h.1

/-- A branch that exists leads on. -/
theorem Pipeline.BranchesExist.leads (h : p.BranchesExist) {i : Nat} {s : Intent} {target : String}
    (hs : p.steps[i]? = some s) (hnamed : s.onFailure = some target) :
    ∃ j, p.FirstAt target j ∧ p.Leads i false j := by
  obtain ⟨k, t, ht, hid⟩ := h s (List.mem_of_getElem? hs) target hnamed
  cases hindex : p.stepIndex? target with
  | none => exact absurd hid (stepIndex?_eq_none_iff.mp hindex t (List.mem_of_getElem? ht))
  | some j =>
    have hfirst := stepIndex?_eq_some_iff.mp hindex
    exact ⟨j, hfirst, .branch hs hnamed hfirst⟩

/-- Where every branch exists, only a step that names none strands a run. -/
theorem Pipeline.BranchesExist.strands (h : p.BranchesExist) {i : Nat} (hstrands : p.Strands i) :
    ∃ s, p.steps[i]? = some s ∧ s.onFailure = none := by
  obtain ⟨s, hs, hnowhere⟩ := hstrands
  refine ⟨s, hs, ?_⟩
  cases hnamed : s.onFailure with
  | none => rfl
  | some target =>
    obtain ⟨j, ⟨⟨t, ht, hid⟩, -⟩, -⟩ := h.leads hs hnamed
    exact absurd hid (hnowhere target hnamed t (List.mem_of_getElem? ht))

/-- A run that has ended in front of a step was cancelled there, or could not compile it. -/
theorem Log.ended_in_front (h : Log p start run visits shown) {i : Nat} {s : Intent}
    (hi : Itinerary p start visits i) (hs : p.steps[i]? = some s)
    {result : Except PipelineError RunStatus} (hp : run.phase = .finished result) :
    (result = .ok .cancelled ∧ run.state.cancelled = true) ∨
      ∃ e, result = .error e ∧ run.scope.ready s = .error e := by
  have hat := h.isAt
  unfold Run.IsAt at hat
  rw [hp] at hat
  match result, hat with
  | .ok .success, hpath =>
    obtain rfl := hi.unique hpath
    simp at hs
  | .ok .failure, hstranded => exact absurd hstranded hi.not_stranded
  | .ok .cancelled, ⟨_, _, _, _, hflag⟩ => exact .inl ⟨rfl, hflag⟩
  | .error e, ⟨j, t, hj, ht, hready⟩ =>
    obtain rfl := hi.unique hj
    obtain rfl := Option.some.inj (hs.symm.trans ht)
    exact .inr ⟨e, rfl, hready⟩

/-- A run ends with an error only at a step that cannot be compiled. -/
theorem Log.error (h : Log p start run visits shown) {e : PipelineError}
    (hfinishing : run.Finishing (.error e)) :
    ∃ i s, Itinerary p start visits i ∧ p.steps[i]? = some s ∧ run.scope.ready s = .error e := by
  have hat := h.isAt
  unfold Run.IsAt at hat
  cases hfinishing with
  | ended hp =>
    rw [hp] at hat
    exact hat
  | @refused i s _ hp hs _ hready =>
    rw [hp] at hat
    exact ⟨i, s, hat, h.pipeline ▸ hs, hready⟩

end Runs

namespace Runner

/-- What is known of a run whose visits lead to a step that it has not begun. -/
structure Facing (r : Runner) (id : String) (run : Run) (i : Nat) (s : Intent) : Prop where
  /-- If it has ended, it was cancelled there, or the step cannot be compiled. -/
  ended : ∀ result, r.result? id = some result →
    (result = .ok .cancelled ∧ run.state.cancelled = true) ∨
      ∃ e, result = .error e ∧ run.scope.ready s = .error e
  /-- Otherwise it is cancelled, or ends with the error of the step, or begins it, once it is free
  to. -/
  goes_on : r.result? id = none →
    (r.Ends id (.ok .cancelled) ↔ run.state.cancelled = true) ∧
    (∀ e, r.Ends id (.error e) ↔ run.state = {} ∧ run.scope.ready s = .error e) ∧
    ∀ ready trace, run.state = {} → run.scope.ready s = .ok ready →
      ∃ name, (r.perform (.advance id trace)).2 = [.event ⟨id, .stepStart i s.id name⟩]

/-- What a run of a pipeline without warnings is spared. -/
structure Spared (p : Pipeline) (start : Nat) (r : Runner) (id : String) (run : Run)
    (visits : List Visit) (shown : List Signal) : Prop where
  visit : ∀ v ∈ visits, v.Of p id
  nothing_else : ofSteps shown = visits.flatMap (Visit.signals id)
  /-- After a failed step that names a branch comes the one step with that id: it is the next
  visit, or the run is in front of it. -/
  followed : ∀ before v after s target, visits = before ++ v :: after → v.success = some false →
    p.steps[v.index]? = some s → s.onFailure = some target →
    ∃ j t, p.steps[j]? = some t ∧ t.id = some target ∧ (∀ k, p.StepWith target k → k = j) ∧
      match after with
      | [] => r.Facing id run j t
      | w :: _ => w.index = j
  /-- A run that fails does so after a step that failed and names no branch. -/
  failure : r.Ends id (.ok .failure) → ∃ before v s, visits = before ++ [v] ∧
    v.success = some false ∧ p.steps[v.index]? = some s ∧ s.onFailure = none
  /-- A run that ends with an error does so in front of a step that cannot be compiled. -/
  error : ∀ e, r.Ends id (.error e) →
    ∃ i s, Itinerary p start visits i ∧ p.steps[i]? = some s ∧ run.scope.ready s = .error e

section Spared

variable {p : Pipeline} {start : Nat} {r : Runner} {id : String} {run : Run}
  {visits : List Visit} {shown : List Signal}

theorem facing_of_log (hk : r.Keyed) (hrun : Table.get? r.runs id = some run)
    (h : Log p start run visits shown) {i : Nat} {s : Intent} (hi : Itinerary p start visits i)
    (hs : p.steps[i]? = some s) : r.Facing id run i s where
  ended result hresult := h.ended_in_front hi hs ((result?_eq_some_iff hrun result).mp hresult)
  goes_on hopen := (travelled_of_log hk hrun h).in_front hopen i s hi hs

theorem spared_of_log (hk : r.Keyed) (hrun : Table.get? r.runs id = some run)
    (h : Log p start run visits shown) (hdistinct : p.DistinctIds)
    (hbranches : p.BranchesExist) : Spared p start r id run visits shown := by
  have htravelled := travelled_of_log hk hrun h
  constructor
  case visit => exact htravelled.visit
  case nothing_else => exact htravelled.nothing_else
  case followed =>
    intro before v after s target hvisits hfailed hs hnamed
    obtain ⟨j, hfirst, hleads⟩ := hbranches.leads hs hnamed
    have hpath : Itinerary p start (before ++ [v]) j :=
      .onward (htravelled.follows before v after hvisits) hfailed hleads
    have ⟨⟨t, ht, htid⟩, _⟩ := hfirst
    refine ⟨j, t, ht, htid, fun k hstep => hfirst.only hdistinct hstep, ?_⟩
    cases after with
    | nil => exact facing_of_log hk hrun h (hvisits ▸ hpath) ht
    | cons w rest =>
      have hnext := htravelled.follows (before ++ [v]) w rest (by simp [hvisits])
      exact hnext.unique hpath
  case failure =>
    intro hends
    obtain ⟨before, v, hvisits, hfailed, hstrands, -⟩ := htravelled.failure_iff.mp hends
    obtain ⟨s, hs, hnone⟩ := hbranches.strands hstrands
    exact ⟨before, v, s, hvisits, hfailed, hs, hnone⟩
  case error =>
    intro e hends
    exact h.error ((ends_iff hk hrun _).mp hends)

end Spared

/-- **The warnings of a pipeline.** The check fails exactly at a blank name or at the first blank
intent; otherwise it warns of each step that has an id of an earlier one, then of each branch to no
step, so of nothing exactly when the ids are distinct and the branches exist. Then in every run,
begun anywhere and whatever is done around it, a failed step that names a branch is followed by the
one step that the branch names, and the run fails at a step that names none or with an error of a
step that cannot be compiled. -/
theorem warnings_of_pipeline (p : Pipeline) :
    p.Checked ∧ (p.validate = .ok [] →
      ∀ (registry : Registry) (mappings : List Route) (root : String) (before : List Act)
        (id : String) (options : RunOptions) (after : List Act),
        Table.get? ((fresh registry mappings root).course before).1.runs id = none →
        ∀ start, options.start.Begins p start →
          let history :=
            (fresh registry mappings root).course (before ++ .begin id p options :: after)
          ∃ run visits, Table.get? history.1.runs id = some run ∧
            Spared p start history.1 id run visits (seen id history.2)) := by
  refine ⟨p.checked, ?_⟩
  intro hclean registry mappings root before id options after hid start hbegins history
  obtain ⟨-, hdistinct, hbranches⟩ := p.checked.clean_iff.mp hclean
  have hk := keyed_fresh registry mappings root
  obtain ⟨run, visits, hrun, hlog⟩ := log_of_begin hk hid hbegins after
  exact ⟨run, visits, hrun, spared_of_log (keyed_course hk _) hrun hlog hdistinct hbranches⟩

/-- The failed step of this run is followed by the step that it names. -/
theorem warnings_of_way_out :
    withWayOut.validate = .ok [] ∧ Table.get? ((fresh [] [] "/").course []).1.runs "r" = none ∧
    Signal.event ⟨"r", .stepEnd 0 (some "publish") false⟩ ∈
      seen "r" ((fresh [] [] "/").course ([] ++ .begin "r" withWayOut {} :: publishFailed)).2 ∧
    ∃ run visits, Spared withWayOut 0
      ((fresh [] [] "/").course ([] ++ .begin "r" withWayOut {} :: publishFailed)).1 "r" run visits
      (seen "r" ((fresh [] [] "/").course
        ([] ++ .begin "r" withWayOut {} :: publishFailed)).2) := by
  have hclean : withWayOut.validate = .ok [] := by with_unfolding_all rfl
  obtain ⟨run, visits, -, hspared⟩ := (warnings_of_pipeline withWayOut).2 hclean [] [] "/" [] "r" {}
    publishFailed rfl 0 rfl
  refine ⟨hclean, rfl, List.mem_of_getElem? (i := 3) ?_, run, visits, hspared⟩
  with_unfolding_all rfl

end Runner

end Workflow
