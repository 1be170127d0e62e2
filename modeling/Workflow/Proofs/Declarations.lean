import Workflow.Cli.Listing

/- What the documents below a directory declare. The documents come in the order of their
   paths (`discovered_pipelinesBelow`), each gives its triggers in the order of its steps
   (`scanned_triggers`), and one that cannot be read, or is no pipeline, gives nothing
   and leaves the others as they are (`declares_triggersBelow`). The program that lists
   triggers goes over the documents by itself; it finds the same (`foundTriggers_fst`). -/
namespace Workflow

/-! ## Order of paths -/

namespace Path

section Order

variable {a b c : Part} {as bs cs : List Part}

theorem Part.before_iff :
    a.before b = true ↔ a.rank < b.rank ∨ ∃ x y, a = .name x ∧ b = .name y ∧ x < y := by
  cases a <;> cases b <;> simp [Part.before, Part.rank]

theorem Part.before_trans (hab : a.before b = true) (hbc : b.before c = true) :
    a.before c = true := by
  rw [Part.before_iff] at hab hbc ⊢
  rcases hab with hab | ⟨x, y, rfl, rfl, hxy⟩
  · rcases hbc with hbc | ⟨y, z, rfl, rfl, hyz⟩
    · exact .inl (Nat.lt_trans hab hbc)
    · exact .inl hab
  · rcases hbc with hbc | ⟨y', z, hy, rfl, hyz⟩
    · exact .inl hbc
    · cases hy
      exact .inr ⟨x, z, rfl, rfl, String.lt_trans hxy hyz⟩

theorem Part.before_asymm (hab : a.before b = true) : b.before a = false := by
  rw [Bool.eq_false_iff]
  intro hba
  rw [Part.before_iff] at hab hba
  rcases hab with hab | ⟨x, y, rfl, rfl, hxy⟩
  · rcases hba with hba | ⟨y, x, rfl, rfl, hyx⟩
    · exact Nat.lt_asymm hab hba
    · exact Nat.lt_irrefl _ hab
  · rcases hba with hba | ⟨y', x', hy, hx, hyx⟩
    · exact Nat.lt_irrefl _ hba
    · cases hx
      cases hy
      exact String.lt_irrefl x (String.lt_trans hxy hyx)

theorem Part.before_total (hne : a ≠ b) : a.before b = true ∨ b.before a = true := by
  cases a with
  | name x =>
    cases b with
    | name y =>
      rw [Part.before_iff, Part.before_iff]
      by_cases hlt : x < y
      · exact .inl (.inr ⟨x, y, rfl, rfl, hlt⟩)
      · have hxy : x ≠ y := fun heq => hne (by rw [heq])
        have hgt : y < x := by
          apply String.not_le.mp
          intro hle
          exact hxy (String.le_antisymm hle (String.not_lt.mp hlt))
        exact .inr (.inr ⟨y, x, rfl, rfl, hgt⟩)
    | root | here | up => exact .inr rfl
  | root | here | up => cases b <;> first | exact absurd rfl hne | exact .inl rfl | exact .inr rfl

theorem notAfter_trans (hab : notAfter as bs = true) (hbc : notAfter bs cs = true) :
    notAfter as cs = true := by
  induction as generalizing bs cs with
  | nil => rfl
  | cons a as ih =>
    cases bs with
    | nil => cases hab
    | cons b bs =>
      cases cs with
      | nil => cases hbc
      | cons c cs =>
        unfold notAfter at hab hbc ⊢
        by_cases heq : a = b
        · subst heq
          rw [if_pos rfl] at hab
          by_cases hac : a = c
          · rw [if_pos hac] at hbc ⊢
            exact ih hab hbc
          · rwa [if_neg hac] at hbc ⊢
        · rw [if_neg heq] at hab
          by_cases hbc' : b = c
          · subst hbc'
            rwa [if_neg heq]
          · rw [if_neg hbc'] at hbc
            have hac : a ≠ c := by
              rintro rfl
              rw [Part.before_asymm hab] at hbc
              cases hbc
            rw [if_neg hac]
            exact Part.before_trans hab hbc

theorem notAfter_total (as bs : List Part) : (notAfter as bs || notAfter bs as) = true := by
  induction as generalizing bs with
  | nil => rfl
  | cons a as ih =>
    cases bs with
    | nil => rfl
    | cons b bs =>
      unfold notAfter
      by_cases heq : a = b
      · rw [if_pos heq, if_pos heq.symm]
        exact ih bs
      · rw [if_neg heq, if_neg (Ne.symm heq), Bool.or_eq_true]
        exact Part.before_total heq

end Order

theorem sorted_sort (paths : List String) :
    (sort paths).Pairwise fun a b => notAfter (parts a) (parts b) = true := by
  apply List.pairwise_mergeSort
  · intro a b c hab hbc
    exact notAfter_trans hab hbc
  · intro a b
    exact notAfter_total (parts a) (parts b)

end Path

/-! ## Documents -/

section Documents

variable {tree : FileTree} {root path : String} {defaults : TriggerDefaults}

/-- Whether paths are those of the entries below a directory whose names end as those of pipelines
do, in order. -/
structure FileTree.Discovered (tree : FileTree) (root : String) (paths : List String) : Prop where
  sorted : paths.Pairwise fun a b => Path.notAfter (Path.parts a) (Path.parts b) = true
  mem_iff : ∀ path, path ∈ paths ↔ ∃ place way name entry, tree.resolve root = some place ∧
    (place ++ way, entry) ∈ tree.entries ∧ way.getLast? = some name ∧
    Text.endsWith Pipeline.fileEnding name = true ∧
    path = way.foldl Path.join (plainRoot root)

theorem FileTree.mem_waysBelow {place way : List String} (hway : way ≠ []) :
    way ∈ tree.waysBelow place ↔ ∃ entry, (place ++ way, entry) ∈ tree.entries := by
  unfold waysBelow
  rw [List.mem_filterMap]
  constructor
  · rintro ⟨⟨p, entry⟩, hmem, hsome⟩
    dsimp only at hsome
    split at hsome
    · rename_i hprefix
      rw [Bool.and_eq_true, List.isPrefixOf_iff_prefix] at hprefix
      obtain ⟨⟨below, rfl⟩, -⟩ := hprefix
      rw [List.drop_left, Option.some.injEq] at hsome
      exact ⟨entry, hsome ▸ hmem⟩
    · cases hsome
  · rintro ⟨entry, hmem⟩
    exact ⟨_, hmem, by simp [hway]⟩

theorem FileTree.discovered_pipelinesBelow (tree : FileTree) (root : String) :
    tree.Discovered root (tree.pipelinesBelow root) := by
  unfold pipelinesBelow
  cases hresolve : tree.resolve root with
  | none => exact ⟨List.Pairwise.nil, by simp [hresolve]⟩
  | some place =>
    refine ⟨Path.sorted_sort _, fun path => ?_⟩
    simp only [Path.sort, List.mem_mergeSort, List.mem_map, List.mem_filter]
    constructor
    · rintro ⟨way, ⟨hway, hname⟩, rfl⟩
      cases hlast : way.getLast? with
      | none => simp [hlast] at hname
      | some name =>
        rw [hlast] at hname
        have hne : way ≠ [] := by
          rintro rfl
          cases hlast
        obtain ⟨entry, hmem⟩ := (mem_waysBelow hne).mp hway
        exact ⟨place, way, name, entry, hresolve, hmem, hlast, hname, rfl⟩
    · rintro ⟨other, way, name, entry, hother, hmem, hlast, hname, rfl⟩
      obtain rfl := Option.some.inj (hresolve.symm.trans hother)
      have hne : way ≠ [] := by
        rintro rfl
        cases hlast
      exact ⟨way, ⟨(mem_waysBelow hne).mpr ⟨entry, hmem⟩, by rw [hlast]; exact hname⟩, rfl⟩

/-! ## Steps -/

/-- A trigger tells the document and the place of the step that declares it. -/
theorem TriggerDefinition.of_ofStep {index : Nat} {step : Intent} {d : TriggerDefinition}
    (h : ofStep path index step defaults = .ok (some d)) :
    d.pipeline = path ∧ d.stepIndex = index := by
  obtain ⟨suffix, kind, spec, -, -, -, -, rfl⟩ := ofStep_eq_some_iff.mp h
  exact ⟨rfl, rfl⟩

/-- Whether triggers are those that the steps of a pipeline declare, in the order of the steps. -/
structure Scanned (path : String) (defaults : TriggerDefaults) (p : Pipeline)
    (found : List TriggerDefinition) : Prop where
  order : found.Pairwise fun d e => d.stepIndex < e.stepIndex
  mem_iff : ∀ d, d ∈ found ↔ ∃ step, p.steps[d.stepIndex]? = some step ∧
    TriggerDefinition.ofStep path d.stepIndex step defaults = .ok (some d)

/-- The triggers of a pipeline, step by step. -/
theorem Pipeline.triggers_fst (p : Pipeline) (path : String) (defaults : TriggerDefaults) :
    (p.triggers path defaults).1 = p.steps.zipIdx.filterMap fun s =>
      (TriggerDefinition.ofStep path s.2 s.1 defaults).toOption.join := by
  unfold triggers triggerResults
  dsimp only
  rw [List.filterMap_map]
  congr 1
  funext s
  dsimp only [Function.comp]
  cases TriggerDefinition.ofStep path s.2 s.1 defaults <;> rfl

theorem scanned_triggers (path : String) (defaults : TriggerDefaults) (p : Pipeline) :
    Scanned path defaults p (p.triggers path defaults).1 := by
  have hfound : ∀ {r : Except TriggerError (Option TriggerDefinition)} {d : TriggerDefinition},
      r.toOption.join = some d ↔ r = .ok (some d) := by
    intro r d
    cases r <;> simp [Except.toOption]
  constructor
  case order =>
    rw [Pipeline.triggers_fst, List.pairwise_filterMap]
    -- the steps are numbered in their order, and each trigger has the number of its step
    have hnumbered : p.steps.zipIdx.Pairwise fun s t => s.2 < t.2 := by
      apply List.pairwise_map.mp
      rw [List.zipIdx_map_snd]
      exact List.pairwise_lt_range'
    refine hnumbered.imp fun {s t} hlt d hd e he => ?_
    rw [(TriggerDefinition.of_ofStep (hfound.mp hd)).2,
      (TriggerDefinition.of_ofStep (hfound.mp he)).2]
    exact hlt
  case mem_iff =>
    intro d
    rw [Pipeline.triggers_fst, List.mem_filterMap]
    constructor
    · rintro ⟨⟨step, i⟩, hmem, hd⟩
      have hstep := hfound.mp hd
      obtain rfl := (TriggerDefinition.of_ofStep hstep).2
      exact ⟨step, List.mk_mem_zipIdx_iff_getElem?.mp hmem, hstep⟩
    · rintro ⟨step, hstep, hd⟩
      exact ⟨(step, d.stepIndex), List.mk_mem_zipIdx_iff_getElem?.mpr hstep, hfound.mpr hd⟩

/-- The triggers that documents declare, one document after the other. -/
inductive Declares (tree : FileTree) (defaults : TriggerDefaults) :
    List String → List TriggerDefinition → Prop where
  | nil : Declares tree defaults [] []
  /-- A document that cannot be read, or is no pipeline, declares nothing. -/
  | skip {path : String} {rest : List String} {ds : List TriggerDefinition}
      (unread : ∀ p, Pipeline.load tree path ≠ .ok p) (others : Declares tree defaults rest ds) :
      Declares tree defaults (path :: rest) ds
  | scan {path : String} {rest : List String} {p : Pipeline} {found ds : List TriggerDefinition}
      (read : Pipeline.load tree path = .ok p) (scanned : Scanned path defaults p found)
      (others : Declares tree defaults rest ds) : Declares tree defaults (path :: rest) (found ++ ds)

theorem declares_triggersBelow (tree : FileTree) (root : String) (defaults : TriggerDefaults) :
    Declares tree defaults (tree.pipelinesBelow root) (tree.triggersBelow root defaults) := by
  unfold FileTree.triggersBelow
  induction tree.pipelinesBelow root with
  | nil => exact .nil
  | cons path rest ih =>
    rw [List.flatMap_cons]
    cases hload : Pipeline.load tree path with
    | ok p => exact .scan hload (scanned_triggers path defaults p) ih
    | error e => exact .skip (by simp [hload]) ih

/-- A declared trigger is that of a step of a document that is there. -/
theorem Declares.source {paths : List String} {ds : List TriggerDefinition}
    (h : Declares tree defaults paths ds) {d : TriggerDefinition} (hd : d ∈ ds) :
    d.pipeline ∈ paths ∧ ∃ p step, Pipeline.load tree d.pipeline = .ok p ∧
      p.steps[d.stepIndex]? = some step ∧
      TriggerDefinition.ofStep d.pipeline d.stepIndex step defaults = .ok (some d) := by
  induction h with
  | nil => cases hd
  | skip unread others ih =>
    obtain ⟨hpath, hsource⟩ := ih hd
    exact ⟨List.mem_cons_of_mem _ hpath, hsource⟩
  | scan read scanned others ih =>
    rcases List.mem_append.mp hd with hd | hd
    · obtain ⟨step, hstep, hofStep⟩ := (scanned.mem_iff d).mp hd
      obtain ⟨rfl, -⟩ := TriggerDefinition.of_ofStep hofStep
      exact ⟨List.mem_cons_self, _, step, read, hstep, hofStep⟩
    · obtain ⟨hpath, hsource⟩ := ih hd
      exact ⟨List.mem_cons_of_mem _ hpath, hsource⟩

end Documents

/-! ## Listings -/

/-- What the program lists are the triggers that a manager registers. -/
theorem Cli.Context.foundTriggers_fst (c : Context) :
    c.foundTriggers.1 = (c.environment.tree.triggersBelow c.settings.triggerRoot
      c.settings.defaults).map (·.info) := by
  unfold foundTriggers FileTree.triggersBelow
  dsimp only
  induction c.environment.tree.pipelinesBelow c.settings.triggerRoot with
  | nil => rfl
  | cons path rest ih =>
    rw [List.flatMap_cons, List.map_append, ← ih]
    cases hload : Pipeline.load c.environment.tree path with
    | ok p => rw [List.filterMap_cons_some (by simp [hload]; rfl), List.flatMap_cons]
    | error e => rw [List.filterMap_cons_none (by simp [hload]), List.map_nil, List.nil_append]

end Workflow
