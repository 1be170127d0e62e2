import Workflow.Proofs.DecimalDigits
import Workflow.Proofs.Declarations
import Workflow.Proofs.FileTrees

/- What triggers are called by. The id of a trigger is the name of its file, a mark and the id or
   else the index of its step, so two triggers may have one id: two steps of a document if the one
   has the index of the other, which has no id, as its own, and steps of different documents if
   these have the same name (`Declares.id_eq_iff_clash`). Every document is found once, as
   different ways through the tree lead to different paths (`pipelinesBelow_nodup`). -/
namespace Workflow

/-! ## Paths of documents -/

namespace Path

/-- What stands in front of a name that is appended to a path. -/
def front (base : String) : List Char :=
  if base.isEmpty || base.toList.getLast? == some '/' then base.toList else base.toList ++ ['/']

/-- Names as they stand behind a path, each behind a slash. -/
def tailText (way : List String) : List Char := way.flatMap fun name => '/' :: name.toList

section Joins

variable {base name : String} {way other : List String}

theorem toList_join (h : Nameable name) :
    (join base name).toList = front base ++ name.toList := by
  have hrelative : ¬ isAbsolute name = true := by
    intro habsolute
    have hhead : name.toList.head? = some '/' := by simpa [isAbsolute] using habsolute
    exact h.2 (List.mem_of_mem_head? hhead)
  rw [join, if_neg hrelative, front]
  split <;> simp

theorem front_join (h : Nameable name) :
    front (join base name) = front base ++ name.toList ++ ['/'] := by
  have hlist : name.toList ≠ [] := by simpa using h.1
  have hlast : (join base name).toList.getLast? ≠ some '/' := by
    rw [toList_join h, List.getLast?_append, List.getLast?_eq_some_getLast hlist, Option.some_or,
      ← List.getLast?_eq_some_getLast hlist]
    intro hslash
    exact h.2 (List.mem_of_getLast? hslash)
  have hempty : ¬ (join base name).isEmpty = true := by
    rw [String.isEmpty_iff, ← String.toList_inj, toList_join h]
    simp [h.1]
  rw [front, if_neg (by simp [hempty, hlast]), toList_join h]

/-- The path that a way leads to. -/
theorem toList_foldl_join (hne : way ≠ []) (h : ∀ name ∈ way, Nameable name) :
    '/' :: (way.foldl join base).toList = '/' :: front base ++ (tailText way).tail := by
  induction way generalizing base with
  | nil => exact absurd rfl hne
  | cons name way ih =>
    obtain ⟨hname, hway⟩ := List.forall_mem_cons.mp h
    cases way with
    | nil => simp [toList_join hname, tailText]
    | cons next way =>
      rw [List.foldl_cons, ih (by simp) hway, front_join hname]
      simp [tailText]

theorem takeWhile_tailText (h : Nameable name) (way : List String) :
    (name.toList ++ tailText way).takeWhile (· != '/') = name.toList := by
  have hname : ∀ c ∈ name.toList, (c != '/') = true := by
    intro c hc
    rw [bne_iff_ne]
    rintro rfl
    exact h.2 hc
  rw [List.takeWhile_append_of_pos hname]
  cases way <;> simp [tailText]

theorem tailText_inj (hway : ∀ name ∈ way, Nameable name) (hother : ∀ name ∈ other, Nameable name)
    (h : tailText way = tailText other) : way = other := by
  induction way generalizing other with
  | nil =>
    cases other with
    | nil => rfl
    | cons name other => simp [tailText] at h
  | cons name way ih =>
    cases other with
    | nil => simp [tailText] at h
    | cons name' other =>
      obtain ⟨hfirst, hway⟩ := List.forall_mem_cons.mp hway
      obtain ⟨hfirst', hother⟩ := List.forall_mem_cons.mp hother
      have htext : name.toList ++ tailText way = name'.toList ++ tailText other :=
        (List.cons.inj h).2
      have hname : name.toList = name'.toList := by
        rw [← takeWhile_tailText hfirst way, htext, takeWhile_tailText hfirst' other]
      rw [hname, List.append_cancel_left_eq] at htext
      rw [String.toList_inj.mp hname, ih hway hother htext]

/-- Different ways lead to different paths. -/
theorem foldl_join_inj (hne : way ≠ []) (hne' : other ≠ []) (hway : ∀ name ∈ way, Nameable name)
    (hother : ∀ name ∈ other, Nameable name) (h : way.foldl join base = other.foldl join base) :
    way = other := by
  have htails : '/' :: (way.foldl join base).toList = _ := toList_foldl_join hne hway
  rw [h, toList_foldl_join hne' hother, List.append_cancel_left_eq] at htails
  refine tailText_inj hway hother ?_
  cases way with
  | nil => exact absurd rfl hne
  | cons name way =>
    cases other with
    | nil => exact absurd rfl hne'
    | cons name' other => exact congrArg ('/' :: ·) htails.symm

end Joins

end Path

section Documents

variable {tree : FileTree} {root : String} {place : List String}

theorem FileTree.Sound.waysBelow (h : tree.Sound) (place : List String) :
    (tree.waysBelow place).Nodup ∧
      ∀ way ∈ tree.waysBelow place, way ≠ [] ∧ ∀ name ∈ way, Path.Nameable name := by
  unfold FileTree.waysBelow
  constructor
  · apply List.pairwise_filterMap.mpr
    refine (List.pairwise_map.mp h.places).imp ?_
    rintro ⟨p, e⟩ ⟨q, f⟩ hne way hway other hother rfl
    dsimp only at hne hway hother
    split at hway
    case isFalse => cases hway
    case isTrue hp =>
    split at hother
    case isFalse => cases hother
    case isTrue hq =>
    simp only [Bool.and_eq_true, List.isPrefixOf_iff_prefix] at hp hq
    obtain ⟨⟨below, rfl⟩, -⟩ := hp
    obtain ⟨⟨below', rfl⟩, -⟩ := hq
    rw [List.drop_left] at hway hother
    exact hne (by rw [Option.some.inj (hway.trans hother.symm)])
  · intro way hway
    obtain ⟨⟨p, e⟩, hmem, hsome⟩ := List.mem_filterMap.mp hway
    dsimp only at hsome
    split at hsome
    case isFalse => cases hsome
    case isTrue hp =>
      rw [Bool.and_eq_true, List.isPrefixOf_iff_prefix] at hp
      obtain ⟨⟨below, rfl⟩, hlength⟩ := hp
      rw [List.drop_left, Option.some.injEq] at hsome
      subst hsome
      refine ⟨?_, fun name hname => h.names _ hmem name (List.mem_append_right place hname)⟩
      rintro rfl
      simp at hlength

/-- Every document is found once. -/
theorem FileTree.Sound.pipelinesBelow_nodup (h : tree.Sound) (root : String) :
    (tree.pipelinesBelow root).Nodup := by
  unfold FileTree.pipelinesBelow
  split
  case h_1 => exact List.nodup_nil
  case h_2 place _ =>
    obtain ⟨hnodup, hways⟩ := h.waysBelow place
    unfold Path.sort
    rw [(List.mergeSort_perm _ _).nodup_iff]
    refine List.pairwise_map.mpr ((hnodup.filter _).imp_of_mem ?_)
    intro way other hway hother hne heq
    obtain ⟨hway, hnames⟩ := hways way ((List.mem_filter.mp hway).1)
    obtain ⟨hother, hnames'⟩ := hways other ((List.mem_filter.mp hother).1)
    exact hne (Path.foldl_join_inj hway hother hnames hnames' heq)

/-! ## Ids -/

namespace TriggerDefinition

/-- The name of the file that declares a trigger. -/
def fileName (d : TriggerDefinition) : String := (Path.fileName? d.pipeline).getD ""

/-- What the step of a trigger is called by: its id, or else its index. -/
def stepName (d : TriggerDefinition) : String := d.stepId.getD (toString d.stepIndex)

/-- Whether a step has the index of another one, which has no id, as its own id. -/
def Numbers (d e : TriggerDefinition) : Prop :=
  d.stepId = some (toString e.stepIndex) ∧ e.stepId = none

/-- Whether a file name goes on with a mark where another one ends, and the step of that other one
is called by what goes on and by the step of the former. -/
def Extends (d e : TriggerDefinition) : Prop :=
  ∃ more, d.fileName = e.fileName ++ "#" ++ more ∧ e.stepName = more ++ "#" ++ d.stepName

/-- How two triggers come by one id: in one document by the index of a step, in different ones by
the names of the files. -/
def Clash (d e : TriggerDefinition) : Prop :=
  if d.pipeline = e.pipeline then d.Numbers e ∨ e.Numbers d
  else d.fileName = e.fileName ∧ d.stepName = e.stepName ∨ d.Extends e ∨ e.Extends d

section Ids

variable {d e : TriggerDefinition}

theorem toList_id (d : TriggerDefinition) :
    d.id.toList = d.fileName.toList ++ '#' :: d.stepName.toList := by
  simp [id, fileName, stepName]

theorem extends_of_prefix (hfile : d.fileName.toList <+: e.fileName.toList) (hid : d.id = e.id) :
    d.fileName = e.fileName ∧ d.stepName = e.stepName ∨ e.Extends d := by
  obtain ⟨more, hmore⟩ := hfile
  have hchars := congrArg String.toList hid
  rw [toList_id, toList_id, ← hmore, List.append_assoc, List.append_cancel_left_eq] at hchars
  cases more with
  | nil =>
    rw [List.append_nil] at hmore
    exact .inl ⟨String.toList_inj.mp hmore, String.toList_inj.mp (List.cons.inj hchars).2⟩
  | cons c more =>
    obtain ⟨rfl, hstep⟩ := List.cons.inj hchars
    refine .inr ⟨String.ofList more, ?_, ?_⟩ <;> rw [← String.toList_inj]
    · simp [← hmore]
    · simp [hstep]

theorem Extends.id_eq (h : d.Extends e) : d.id = e.id := by
  obtain ⟨more, hfile, hstep⟩ := h
  rw [← String.toList_inj, toList_id, toList_id, hfile, hstep]
  simp

/-- Two ids are one text if they have the same parts, or the mark of one is in a part of the
other. -/
theorem id_eq_iff : d.id = e.id ↔
    d.fileName = e.fileName ∧ d.stepName = e.stepName ∨ d.Extends e ∨ e.Extends d := by
  constructor
  · intro hid
    have hd : d.fileName.toList <+: d.id.toList := ⟨_, (toList_id d).symm⟩
    have he : e.fileName.toList <+: d.id.toList := ⟨_, by rw [hid, toList_id]⟩
    rcases List.prefix_or_prefix_of_prefix hd he with hprefix | hprefix
    · rcases extends_of_prefix hprefix hid with hsame | hextends
      · exact .inl hsame
      · exact .inr (.inr hextends)
    · rcases extends_of_prefix hprefix hid.symm with ⟨hfile, hstep⟩ | hextends
      · exact .inl ⟨hfile.symm, hstep.symm⟩
      · exact .inr (.inl hextends)
  · rintro (⟨hfile, hstep⟩ | hextends | hextends)
    · rw [← String.toList_inj, toList_id, toList_id, hfile, hstep]
    · exact hextends.id_eq
    · exact hextends.id_eq.symm

theorem id_eq_iff_of_document (hdocument : d.pipeline = e.pipeline) :
    d.id = e.id ↔ d.stepName = e.stepName := by
  have hfile : d.fileName = e.fileName := congrArg (fun p => (Path.fileName? p).getD "") hdocument
  rw [← String.toList_inj, toList_id, toList_id, hfile, List.append_cancel_left_eq, List.cons.injEq,
    String.toList_inj, and_iff_right rfl]

/-- Of two steps of a document that have no id in common, one has to be without an id. -/
theorem stepName_eq_iff (hindex : d.stepIndex ≠ e.stepIndex)
    (hids : ∀ id, d.stepId = some id → e.stepId ≠ some id) :
    d.stepName = e.stepName ↔ d.Numbers e ∨ e.Numbers d := by
  unfold stepName Numbers
  cases hd : d.stepId with
  | none =>
    cases he : e.stepId with
    | none => simpa using fun h => hindex (Number.toString_inj h)
    | some id => simp [eq_comm]
  | some id =>
    have hne := hids id hd
    cases he : e.stepId with
    | none => simp
    | some other =>
      rw [he] at hne
      simpa [eq_comm] using hne

end Ids

/-- A trigger has the id of its step. -/
theorem stepId_of_ofStep {path : String} {index : Nat} {step : Intent} {defaults : TriggerDefaults}
    {d : TriggerDefinition} (h : ofStep path index step defaults = .ok (some d)) :
    d.stepId = step.id := by
  obtain ⟨suffix, kind, spec, -, -, -, -, rfl⟩ := ofStep_eq_some_iff.mp h
  rfl

end TriggerDefinition

/-- Whether the steps of each document that is found have different ids. -/
def FileTree.DistinctSteps (tree : FileTree) (root : String) : Prop :=
  ∀ path ∈ tree.pipelinesBelow root, ∀ p, Pipeline.load tree path = .ok p →
    (p.steps.filterMap (·.id)).Nodup

theorem FileTree.distinctSteps_iff : tree.DistinctSteps root ↔ ∀ path ∈ tree.pipelinesBelow root,
    ((Pipeline.load tree path).toOption.all fun p => decide (p.steps.filterMap (·.id)).Nodup) =
      true := by
  refine forall₂_congr fun path _ => ?_
  cases Pipeline.load tree path <;> simp [Except.toOption]

theorem index_of_id {steps : List Intent} (h : (steps.filterMap (·.id)).Nodup) {i j : Nat}
    {step other : Intent} {id : String} (hi : steps[i]? = some step) (hj : steps[j]? = some other)
    (hstep : step.id = some id) (hother : other.id = some id) : i = j := by
  have hne : ∀ {i j : Nat} {step other : Intent}, i < j → steps[i]? = some step →
      steps[j]? = some other → step.id = some id → other.id ≠ some id := by
    intro i j step other hlt hi hj hstep hother
    obtain ⟨hi', rfl⟩ := List.getElem?_eq_some_iff.mp hi
    obtain ⟨hj', rfl⟩ := List.getElem?_eq_some_iff.mp hj
    exact List.pairwise_iff_getElem.mp (List.pairwise_filterMap.mp h) i j hi' hj' hlt id hstep
      id hother rfl
  rcases Nat.lt_trichotomy i j with hlt | heq | hgt
  · exact absurd hother (hne hlt hi hj hstep)
  · exact heq
  · exact absurd hstep (hne hgt hj hi hother)

/-- Of two declared triggers the steps are different. -/
theorem Declares.pairwise {defaults : TriggerDefaults} {paths : List String}
    {ds : List TriggerDefinition} (h : Declares tree defaults paths ds) (hnodup : paths.Nodup) :
    ds.Pairwise fun d e => d.pipeline = e.pipeline → d.stepIndex < e.stepIndex := by
  induction h with
  | nil => exact List.Pairwise.nil
  | skip unread others ih => exact ih (List.nodup_cons.mp hnodup).2
  | @scan path rest p found ds read scanned others ih =>
    obtain ⟨habsent, hnodup⟩ := List.nodup_cons.mp hnodup
    have hfound := scanned.order.imp fun {d e} hlt (_ : d.pipeline = e.pipeline) => hlt
    refine List.pairwise_append.mpr ⟨hfound, ih hnodup, ?_⟩
    intro d hd e he heq
    -- the documents behind are others
    obtain ⟨step, -, hstep⟩ := (scanned.mem_iff d).mp hd
    rw [(TriggerDefinition.of_ofStep hstep).1] at heq
    exact absurd (heq ▸ (others.source he).1) habsent

/-- Of two triggers listed one behind the other, the ids are the same if they clash. -/
theorem Declares.id_eq_iff_clash {defaults : TriggerDefaults} {ds : List TriggerDefinition}
    (h : Declares tree defaults (tree.pipelinesBelow root) ds) (hsound : tree.Sound)
    (hsteps : tree.DistinctSteps root) : ds.Pairwise fun d e => d.id = e.id ↔ d.Clash e := by
  refine (h.pairwise (hsound.pipelinesBelow_nodup root)).imp_of_mem fun {d e} hd he hlt => ?_
  unfold TriggerDefinition.Clash
  split
  case isFalse => exact TriggerDefinition.id_eq_iff
  case isTrue hdocument =>
    rw [TriggerDefinition.id_eq_iff_of_document hdocument]
    refine TriggerDefinition.stepName_eq_iff (Nat.ne_of_lt (hlt hdocument)) fun id hid hid' => ?_
    obtain ⟨hpath, p, step, hload, hstep, hofStep⟩ := h.source hd
    obtain ⟨-, p', step', hload', hstep', hofStep'⟩ := h.source he
    obtain rfl : p = p' := by
      rw [hdocument, hload'] at hload
      exact (Except.ok.inj hload).symm
    rw [TriggerDefinition.stepId_of_ofStep hofStep] at hid
    rw [TriggerDefinition.stepId_of_ofStep hofStep'] at hid'
    exact Nat.ne_of_lt (hlt hdocument)
      (index_of_id (hsteps _ hpath p hload) hstep hstep' hid hid')

end Documents

end Workflow
