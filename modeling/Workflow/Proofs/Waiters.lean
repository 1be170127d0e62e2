import Workflow.Handle
import Workflow.Proofs.KeptHandles

/- What comes of a handle over a whole history of operations. Its clones share its flags and its
   waiters, so a history is made through any of them. The flags are those that the actions alone
   lead to (`state_after`), and pauses and resumes are announced in turn (`inTurn_announced`). A
   waiter is released by the first run of pending work, from its beginning on, that does not find
   it held back, and by nothing else (`released_iff`). `history_of_handle` says so of every history
   of a new handle. -/
namespace Workflow

/-! ## Flags and announcements -/

/-- Whether what happens from a time at which a run is paused, or is not, to a later one are pauses
and resumes in turn. -/
inductive InTurn : Bool → List Happening → Bool → Prop where
  | nil {paused : Bool} : InTurn paused [] paused
  | pause {rest : List Happening} {paused : Bool} (later : InTurn true rest paused) :
      InTurn false (.pipelinePause :: rest) paused
  | resume {rest : List Happening} {paused : Bool} (later : InTurn false rest paused) :
      InTurn true (.pipelineResume :: rest) paused

theorem InTurn.append {first later : List Happening} {p q r : Bool} (h : InTurn p first q)
    (hlater : InTurn q later r) : InTurn p (first ++ later) r := by
  induction h with
  | nil => exact hlater
  | pause _ ih => exact .pause (ih hlater)
  | resume _ ih => exact .resume (ih hlater)

/-- The last of them tells whether the run is paused now, or there is none. -/
theorem InTurn.paused_iff {happenings : List Happening} {p q : Bool} (h : InTurn p happenings q) :
    q = true ↔ happenings.getLast?.getD (if p then .pipelinePause else .pipelineResume) =
      .pipelinePause := by
  induction h with
  | @nil paused => cases paused <;> simp
  | @pause rest paused later ih | @resume rest paused later ih =>
    rw [ih, List.getLast?_cons]
    rfl

namespace RunState

/-- Whether an action finds something to change. -/
def Takes (s : RunState) : ControlAction → Prop
  | .pause => s.paused = false ∧ s.cancelled = false
  | .resume => s.paused = true
  | .cancel => s.cancelled = false

theorem act?_isSome_iff {s : RunState} {a : ControlAction} :
    (s.act? a).isSome = true ↔ s.Takes a := by
  obtain ⟨paused, cancelled⟩ := s
  cases a <;> cases paused <;> cases cancelled <;> simp [act?, Takes]

theorem ne_of_act? {s s' : RunState} {a : ControlAction} (h : s.act? a = some s') : s' ≠ s := by
  rintro rfl
  obtain ⟨paused, cancelled⟩ := s'
  cases a <;> cases paused <;> cases cancelled <;> simp [act?] at h

theorem cancelled_after {s : RunState} (h : s.cancelled = true) (actions : List ControlAction) :
    (s.after actions).cancelled = true := by
  induction actions generalizing s with
  | nil => exact h
  | cons a rest ih => exact ih (cancelled_act h a)

theorem inTurn_act (s : RunState) (a : ControlAction) :
    InTurn s.paused (s.announced [a]) (s.act a).paused := by
  obtain ⟨paused, cancelled⟩ := s
  cases a <;> cases paused <;> cases cancelled <;>
    first | exact .nil | exact .pause .nil | exact .resume .nil

theorem inTurn_announced (s : RunState) (actions : List ControlAction) :
    InTurn s.paused (s.announced actions) (s.after actions).paused := by
  induction actions generalizing s with
  | nil => exact .nil
  | cons a rest ih =>
    rw [← List.singleton_append, announced_append, after_append]
    exact (s.inTurn_act a).append (ih (s.act a))

end RunState

/-! ## Histories -/

/-- The action that an operation is. -/
def HandleOp.action? : HandleOp → Option ControlAction
  | .act a => some a
  | _ => none

namespace Handle

/-- The handle after operations. -/
def after (h : Handle) (ops : List HandleOp) : Handle := ops.foldl (fun h op => (h.apply op).1) h

/-- What operations announce, in order. -/
def announced (h : Handle) : List HandleOp → List Event
  | [] => []
  | op :: rest => (h.apply op).2.2.toList ++ (h.apply op).1.announced rest

section Operations

variable (h : Handle) (op : HandleOp)

/-- An operation leaves the run, does to the flags what its action does, and announces no more than
that. -/
theorem apply_frame : (h.apply op).1.runId = h.runId ∧
    (h.apply op).1.state = h.state.after op.action?.toList ∧
    (h.apply op).2.2.toList = (h.state.announced op.action?.toList).map (⟨h.runId, ·⟩) := by
  cases op with
  | wait => exact ⟨rfl, rfl, rfl⟩
  | settle =>
    simp only [apply]
    split <;> exact ⟨rfl, rfl, rfl⟩
  | act a =>
    simp only [apply, HandleOp.action?, Option.toList_some, RunState.after, List.foldl_cons,
      List.foldl_nil, RunState.announced, RunState.act]
    cases hact : h.state.act? a with
    | none => exact ⟨rfl, rfl, rfl⟩
    | some s => cases a <;> exact ⟨rfl, rfl, rfl⟩

theorem after_append (first later : List HandleOp) :
    h.after (first ++ later) = (h.after first).after later :=
  List.foldl_append

theorem after_cons (rest : List HandleOp) : h.after (op :: rest) = (h.apply op).1.after rest :=
  rfl

theorem after_concat (ops : List HandleOp) :
    h.after (ops ++ [op]) = ((h.after ops).apply op).1 :=
  h.after_append ops [op]

theorem state_after (ops : List HandleOp) :
    (h.after ops).state = h.state.after (ops.filterMap HandleOp.action?) := by
  induction ops generalizing h with
  | nil => rfl
  | cons op rest ih =>
    rw [after_cons, ih, (h.apply_frame op).2.1, ← RunState.after_append]
    cases op <;> rfl

theorem announced_eq (ops : List HandleOp) : h.announced ops =
    (h.state.announced (ops.filterMap HandleOp.action?)).map (⟨h.runId, ·⟩) := by
  induction ops generalizing h with
  | nil => rfl
  | cons op rest ih =>
    obtain ⟨hrun, hstate, hannounced⟩ := h.apply_frame op
    rw [announced, ih, hrun, hstate, hannounced, ← List.map_append, ← RunState.announced_append]
    cases op <;> rfl

/-! ## Waiters -/

/-- An operation brings a waiter, or releases them all, or leaves them. -/
theorem waiters_apply : (h.apply op).1.waiters =
    if op = .wait then h.waiters ++ [false]
    else if op = .settle ∧ h.state.blocks = false then h.waiters.map fun _ => true
    else h.waiters := by
  cases op with
  | wait => simp [apply]
  | settle => cases hblocks : h.state.blocks <;> simp [apply, hblocks]
  | act a => cases hact : h.state.act? a <;> simp [apply, hact]

theorem length_waiters (ops : List HandleOp) :
    (h.after ops).waiters.length = h.waiters.length + ops.count .wait := by
  induction ops generalizing h with
  | nil => rfl
  | cons op rest ih =>
    rw [after_cons, ih, waiters_apply, List.count_cons]
    cases op with
    | act a => rfl
    | wait => simp; omega
    | settle => by_cases hblocks : h.state.blocks = false <;> simp [hblocks]

end Operations

/-- Whether pending work is run, somewhere among operations, while nothing holds a waiter back. -/
def LetsGo (h : Handle) (ops : List HandleOp) : Prop :=
  ∃ before rest, ops = before ++ .settle :: rest ∧
    ((h.after before).state.paused = false ∨ (h.after before).state.cancelled = true)

theorem letsGo_cons {h : Handle} {op : HandleOp} {rest : List HandleOp} :
    h.LetsGo (op :: rest) ↔
      (op = .settle ∧ h.state.blocks = false) ∨ (h.apply op).1.LetsGo rest := by
  have hblocks : h.state.blocks = false ↔ h.state.paused = false ∨ h.state.cancelled = true := by
    simp only [RunState.blocks, Bool.and_eq_false_iff, Bool.not_eq_false']
  rw [hblocks]
  constructor
  · rintro ⟨before, later, hops, hfree⟩
    cases before with
    | nil =>
      obtain ⟨rfl, -⟩ := List.cons.inj hops
      exact .inl ⟨rfl, hfree⟩
    | cons first before =>
      obtain ⟨rfl, rfl⟩ := List.cons.inj hops
      exact .inr ⟨before, later, rfl, hfree⟩
  · rintro (⟨rfl, hfree⟩ | ⟨before, later, rfl, hfree⟩)
    · exact ⟨[], rest, rfl, hfree⟩
    · exact ⟨op :: before, later, rfl, hfree⟩

/-- Of a waiter, what comes of it by further operations. -/
theorem released_iff {h : Handle} {k : Nat} {released : Bool} (hk : h.waiters[k]? = some released)
    (later : List HandleOp) : ∃ released', (h.after later).waiters[k]? = some released' ∧
      (released' = true ↔ released = true ∨ h.LetsGo later) := by
  induction later generalizing h released with
  | nil => exact ⟨released, hk, by simp [LetsGo]⟩
  | cons op rest ih =>
    have hnext : (h.apply op).1.waiters[k]? =
        some (released || decide (op = .settle ∧ h.state.blocks = false)) := by
      obtain ⟨hlt, hget⟩ := List.getElem?_eq_some_iff.mp hk
      rw [waiters_apply]
      by_cases hwait : op = .wait
      · rw [if_pos hwait, List.getElem?_append_left hlt, hk]
        simp [hwait]
      · rw [if_neg hwait]
        split
        · rename_i hfree
          rw [List.getElem?_map, hk, decide_eq_true hfree, Bool.or_true]
          rfl
        · rename_i hheld
          rw [hk, decide_eq_false hheld, Bool.or_false]
    obtain ⟨released', hk', hiff⟩ := ih hnext
    refine ⟨released', hk', hiff.trans ?_⟩
    rw [letsGo_cons, ← or_assoc, Bool.or_eq_true, decide_eq_true_iff]

/-- An action answers whether it changes the flags, and it does when it finds something to
change. -/
theorem answer_apply (h : Handle) (a : ControlAction) :
    ((h.apply (.act a)).2.1 = true ↔ (h.apply (.act a)).1.state ≠ h.state) ∧
      ((h.apply (.act a)).2.1 = true ↔ h.state.Takes a) := by
  have hanswer : (h.apply (.act a)).2.1 = (h.state.act? a).isSome := by
    cases hact : h.state.act? a <;> simp [apply, hact]
  rw [hanswer]
  refine ⟨?_, RunState.act?_isSome_iff⟩
  cases hact : h.state.act? a with
  | none => simp [apply, hact]
  | some s => simpa [apply, hact] using RunState.ne_of_act? hact

/-- A new handle after operations. -/
def used (runId : String) (ops : List HandleOp) : Handle := ({ runId } : Handle).after ops

section Used

variable {runId : String} {ops before later : List HandleOp}

theorem length_used : (used runId ops).waiters.length = ops.count .wait := by
  rw [used, length_waiters]
  exact Nat.zero_add _

theorem used_append : used runId (before ++ later) = (used runId before).after later :=
  after_append _ _ _

/-- A waiter that begins is behind those that have begun before. -/
theorem getElem?_used_wait :
    (used runId (before ++ [.wait])).waiters[before.count .wait]? = some false := by
  rw [used, after_concat, waiters_apply, if_pos rfl, ← length_used]
  exact List.getElem?_concat_length

end Used

/-- What comes of a new handle by a history of operations. -/
structure History (runId : String) (ops : List HandleOp) : Prop where
  /-- A cancellation at any time of it still holds. -/
  cancelled : ∀ before later, ops = before ++ later →
    (used runId before).state.cancelled = true → (used runId ops).state.cancelled = true
  /-- An action answers whether it changes the flags, and it does when it finds something to
  change. -/
  answers : ∀ a,
    (((used runId ops).apply (.act a)).2.1 = true ↔
      ((used runId ops).apply (.act a)).1.state ≠ (used runId ops).state) ∧
    (((used runId ops).apply (.act a)).2.1 = true ↔ (used runId ops).state.Takes a)
  /-- What is announced is of the run: pauses and resumes in turn, a pause first. -/
  announced : ∃ happenings, ({ runId } : Handle).announced ops = happenings.map (⟨runId, ·⟩) ∧
    InTurn false happenings (used runId ops).state.paused
  /-- The last of it tells whether the run is paused. -/
  told : (used runId ops).state.paused = true ↔
    (({ runId } : Handle).announced ops).getLast? = some ⟨runId, .pipelinePause⟩
  /-- There are as many waiters as have begun to wait. -/
  waiters : (used runId ops).waiters.length = ops.count .wait
  /-- Each of them has been released if pending work has been run, since it began, at a time at
  which the run was not paused or was cancelled, and only then. -/
  released : ∀ before later, ops = before ++ .wait :: later →
    ∃ released, (used runId ops).waiters[before.count .wait]? = some released ∧
      (released = true ↔ (used runId (before ++ [.wait])).LetsGo later)
  /-- Nobody is blocked when pending work has been run after a cancellation. -/
  unblocked : (used runId ops).state.cancelled = true →
    ∀ released ∈ (used runId (ops ++ [.settle])).waiters, released = true

/-- **The history of a handle.** Whatever is done through a handle and its clones, a cancellation
is never taken back, every action answers whether it changed the flags, what is announced mirrors
whether the run is paused, and a waiter is released as soon as pending work is run while the run
does not hold it back. -/
theorem history_of_handle (runId : String) (ops : List HandleOp) : History runId ops := by
  have hannounced := announced_eq { runId } ops
  have hturn := RunState.inTurn_announced {} (ops.filterMap HandleOp.action?)
  rw [← state_after { runId } ops] at hturn
  constructor
  case cancelled =>
    rintro before later rfl hcancelled
    rw [used, after_append, state_after]
    exact RunState.cancelled_after hcancelled _
  case answers => exact answer_apply _
  case announced => exact ⟨_, hannounced, hturn⟩
  case told =>
    rw [used, hturn.paused_iff, hannounced, List.getLast?_map]
    cases (RunState.announced {} (ops.filterMap HandleOp.action?)).getLast? <;> simp
  case waiters => exact length_used
  case released =>
    rintro before later rfl
    obtain ⟨released, hreleased, hiff⟩ := released_iff getElem?_used_wait later
    rw [List.append_cons, used_append]
    exact ⟨released, hreleased, by simpa using hiff⟩
  case unblocked =>
    intro hcancelled released hmem
    have hfree : (used runId ops).state.blocks = false := by simp [RunState.blocks, hcancelled]
    rw [used, after_concat, waiters_apply, if_neg (by simp), if_pos ⟨rfl, hfree⟩] at hmem
    obtain ⟨-, -, hreleased⟩ := List.mem_map.mp hmem
    exact hreleased.symm

/-- A resume that is taken back before pending work is run releases nobody. -/
example : (used "r" [.act .pause, .wait, .settle, .act .resume, .act .pause, .settle]).waiters =
    [false] := rfl

end Handle

end Workflow
