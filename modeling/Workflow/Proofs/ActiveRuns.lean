import Workflow.Proofs.Cancellation

/- The runs in progress. Two parts of a runner tell of them: the table of the runs that
   have not ended, and the place of the run that controls without a run are meant for.
   Each act begins a run, ends one or leaves both as they are (`Turned`), whatever other
   runs do meanwhile, so that both agree at any time with what has been announced
   (`Tracks`). The main statement, `runs_in_progress`, is about every course of a runner:
   what is listed, which handles there are, and whom the controls address. -/
namespace Workflow

/-- The run that a signal announces the beginning of. -/
def Signal.begun? : Signal → Option String
  | .event ⟨id, .pipelineStart _⟩ => some id
  | _ => none

/-- The run that a signal announces the end of. -/
def Signal.ended? : Signal → Option String
  | .event ⟨id, .pipelineEnd _ _⟩ => some id
  | _ => none

/-! ## Moves of a run -/

namespace Run

variable {around : Surroundings} {run run' : Run} {signal : Signal}

theorem isOver_of_next {p : Pipeline} {i : Nat} {success : Bool}
    (h : run.phase = next p i success) : run.isOver = false := by
  unfold isOver
  rcases next_cases p i success with ⟨j, hhead⟩ | hending
  · rw [h, hhead]
  · rw [h, hending]

theorem Advance.isOver (h : Advance around run run' signal) : run.isOver = false := by
  cases h <;> simp [Run.isOver, *]

/-- No move announces a beginning, and one announces an end just when it ends the run. -/
theorem Advance.announces (h : Advance around run run' signal) :
    signal.begun? = none ∧ signal.ended? = if run'.isOver then some run.id else none := by
  cases h with
  | success | cancelled | refused | ending => exact ⟨rfl, rfl⟩
  | control | dispatch | invoke => exact ⟨rfl, rfl⟩
  | @served i intent at_command =>
    rw [isOver_of_next (show _ = next run.pipeline i true from rfl)]
    exact ⟨rfl, rfl⟩
  | @close i success at_close =>
    rw [isOver_of_next (show _ = next run.pipeline i success from rfl)]
    exact ⟨rfl, rfl⟩

theorem isOver_answer (run : Run) (outcome : Outcome) : (run.answer outcome).isOver = run.isOver := by
  have h := run.answered outcome
  generalize run.answer outcome = run' at h
  cases h with
  | @granted i intent left waiting good => cases left <;> simp [isOver, waiting]
  | failed waiting bad => simp [isOver, waiting]
  | idle busy => rfl

end Run

namespace Runner

/-! ## What acts do to the runs in progress -/

/-- The runs whose beginning is announced, in order. -/
def begun (shown : List Signal) : List String := shown.filterMap Signal.begun?

/-- The runs whose end is announced. -/
def ended (shown : List Signal) : List String := shown.filterMap Signal.ended?

/-- Whether the run of an id is over, if there is one. -/
def over? (r : Runner) (id : String) : Option Bool := (Table.get? r.runs id).map Run.isOver

/-- What an act can do to the runs in progress. -/
inductive Turned (r : Runner) : Runner × List Signal → Prop where
  | still {out : Runner × List Signal} (active : out.1.active = r.active)
      (current : out.1.current = r.current) (status : ∀ i, out.1.over? i = r.over? i)
      (begins : begun out.2 = []) (ends : ended out.2 = []) : Turned r out
  | beginning {out : Runner × List Signal} {id : String} (new : r.over? id = none)
      (active : out.1.active = id :: r.active) (current : out.1.current = some id)
      (status : ∀ i, out.1.over? i = if id = i then some false else r.over? i)
      (begins : begun out.2 = [id]) (ends : ended out.2 = []) : Turned r out
  | ending {out : Runner × List Signal} {id : String} (going : r.over? id = some false)
      (active : out.1.active = r.active.filter (· != id))
      (current : out.1.current = if r.current = some id then none else r.current)
      (status : ∀ i, out.1.over? i = if id = i then some true else r.over? i)
      (begins : begun out.2 = []) (ends : ended out.2 = [id]) : Turned r out

section Turned

variable {r : Runner} {id : String}

theorem Turned.rest (r : Runner) : Turned r (r, []) :=
  .still rfl rfl (fun _ => rfl) rfl rfl

theorem over?_insert (r : Runner) (id : String) (run : Run) (i : String) :
    { r with runs := Table.insert id run r.runs }.over? i =
      if id = i then some run.isOver else r.over? i := by
  unfold over?
  rw [Table.get?_insert]
  split <;> rfl

theorem over?_insert_same {run old : Run} (h : Table.get? r.runs id = some old)
    (hover : run.isOver = old.isOver) (i : String) :
    { r with runs := Table.insert id run r.runs }.over? i = r.over? i := by
  rw [over?_insert]
  split
  · rename_i heq
    subst heq
    rw [over?, h, hover]
    rfl
  · rfl

theorem turned_control (r : Runner) (id : String) (action : ControlAction) :
    Turned r ((r.control id action).1, (r.control id action).2.2.toList.map .event) := by
  unfold control
  cases h : Table.get? r.runs id with
  | none => exact .rest r
  | some run =>
    dsimp only
    cases run.state.act? action with
    | none => exact .rest r
    | some state =>
      have hsame : ∀ i, { r with runs := Table.insert id { run with state } r.runs }.over? i =
          r.over? i := over?_insert_same h rfl
      cases action <;> exact .still rfl rfl hsame rfl rfl

theorem turned_begin (r : Runner) (id : String) (pipeline : Pipeline) (options : RunOptions) :
    Turned r (r.perform (.begin id pipeline options)) := by
  cases hid : Table.get? r.runs id with
  | some run =>
    have hrest : r.perform (.begin id pipeline options) = (r, []) := by simp [perform, hid]
    rw [hrest]
    exact .rest r
  | none =>
    cases hs : pipeline.startIndex options.start with
    | error e =>
      have hrest : r.perform (.begin id pipeline options) = (r, []) := by
        simp [perform, hid, begin_error hs]
      rw [hrest]
      exact .rest r
    | ok start =>
      have hnew : r.over? id = none := by rw [over?, hid, Option.map_none]
      have hover := over?_insert r id (r.newRun id pipeline options start)
      simp only [perform, hid, begin_ok hs]
      exact .beginning hnew rfl rfl hover rfl rfl

theorem turned_advance (hk : r.Keyed) (id trace : String) :
    Turned r (r.perform (.advance id trace)) := by
  cases h : Table.get? r.runs id with
  | none =>
    have hrest : r.perform (.advance id trace) = (r, []) := by simp [perform, advance?, h]
    rw [hrest]
    exact .rest r
  | some run =>
    cases hmove : run.advance? ⟨r.registry, r.mappings, trace⟩ with
    | none =>
      have hrest : r.perform (.advance id trace) = (r, []) := by
        simp [perform, advance?, h, hmove]
      rw [hrest]
      exact .rest r
    | some next =>
      obtain ⟨run', signal⟩ := next
      have hadvance := Run.advance_of_advance? hmove
      obtain ⟨hbegun, hended⟩ := hadvance.announces
      rw [hk id run h] at hended
      have hbegins : begun [signal] = [] := List.filterMap_cons_none hbegun
      have hinsert := over?_insert r id run'
      by_cases hover : run'.isOver = true
      · have hout : r.perform (.advance id trace) =
            ({ r with runs := Table.insert id run' r.runs }.release id, [signal]) := by
          simp [perform, advance?, h, hmove, hover]
        rw [if_pos hover] at hended
        rw [hover] at hinsert
        have hgoing : r.over? id = some false := by
          rw [over?, h, Option.map_some, hadvance.isOver]
        rw [hout]
        exact .ending hgoing rfl rfl hinsert hbegins (List.filterMap_cons_some hended)
      · have hout : r.perform (.advance id trace) =
            ({ r with runs := Table.insert id run' r.runs }, [signal]) := by
          simp [perform, advance?, h, hmove, hover]
        rw [if_neg hover] at hended
        have hsame : run'.isOver = run.isOver := by
          rw [hadvance.isOver, Bool.eq_false_iff.mpr hover]
        rw [hout]
        exact .still rfl rfl (over?_insert_same h hsame) hbegins (List.filterMap_cons_none hended)

theorem turned_answer (r : Runner) (id : String) (outcome : Outcome) :
    Turned r (r.answer id outcome, []) := by
  unfold answer
  cases h : Table.get? r.runs id with
  | none => exact .rest r
  | some run => exact .still rfl rfl (over?_insert_same h (run.isOver_answer outcome)) rfl rfl

/-- Every act is one of these. -/
theorem turned_perform (hk : r.Keyed) (a : Act) : Turned r (r.perform a) := by
  cases a with
  | begin id pipeline options => exact turned_begin r id pipeline options
  | advance id trace => exact turned_advance hk id trace
  | answer id outcome => exact turned_answer r id outcome
  | control id action => exact turned_control r id action
  | register registration => exact .still rfl rfl (fun _ => rfl) rfl rfl
  | controlCurrent action =>
    show Turned r ((r.controlCurrent action).1, (r.controlCurrent action).2.2.toList.map .event)
    unfold controlCurrent
    cases r.current with
    | none => exact .rest r
    | some id => exact turned_control r id action

end Turned

/-! ## Announcements -/

theorem begun_append (first later : List Signal) :
    begun (first ++ later) = begun first ++ begun later :=
  List.filterMap_append

theorem ended_append (first later : List Signal) :
    ended (first ++ later) = ended first ++ ended later :=
  List.filterMap_append

/-- Whether the runs in progress agree with what has been announced. -/
structure Tracks (r : Runner) (shown : List Signal) : Prop where
  keyed : r.Keyed
  nodup : r.active.Nodup
  distinct : (begun shown).Nodup
  active : ∀ i, i ∈ r.active ↔ r.over? i = some false
  begun : ∀ i, i ∈ begun shown ↔ r.over? i ≠ none
  ended : ∀ i, i ∈ ended shown ↔ r.over? i = some true
  current : r.current = (Runner.begun shown).getLast?.filter r.active.contains

section Tracks

variable {r : Runner} {shown : List Signal} {out : Runner × List Signal} {id : String}

theorem Tracks.still (h : Tracks r shown) (hk : out.1.Keyed) (active : out.1.active = r.active)
    (current : out.1.current = r.current) (status : ∀ i, out.1.over? i = r.over? i)
    (begins : Runner.begun out.2 = []) (ends : Runner.ended out.2 = []) :
    Tracks out.1 (shown ++ out.2) := by
  have hbegun : Runner.begun (shown ++ out.2) = Runner.begun shown := by
    rw [begun_append, begins, List.append_nil]
  have hended : Runner.ended (shown ++ out.2) = Runner.ended shown := by
    rw [ended_append, ends, List.append_nil]
  constructor
  case keyed => exact hk
  case nodup => rw [active]; exact h.nodup
  case distinct => rw [hbegun]; exact h.distinct
  case active => intro i; rw [active, status, h.active]
  case begun => intro i; rw [hbegun, status, h.begun]
  case ended => intro i; rw [hended, status, h.ended]
  case current => rw [current, hbegun, active, h.current]

theorem Tracks.beginning (h : Tracks r shown) (hk : out.1.Keyed) (new : r.over? id = none)
    (active : out.1.active = id :: r.active) (current : out.1.current = some id)
    (status : ∀ i, out.1.over? i = if id = i then some false else r.over? i)
    (begins : Runner.begun out.2 = [id]) (ends : Runner.ended out.2 = []) :
    Tracks out.1 (shown ++ out.2) := by
  have hbegun : Runner.begun (shown ++ out.2) = Runner.begun shown ++ [id] := by
    rw [begun_append, begins]
  have hended : Runner.ended (shown ++ out.2) = Runner.ended shown := by
    rw [ended_append, ends, List.append_nil]
  have hfresh : id ∉ Runner.begun shown := fun hmem => (h.begun id).mp hmem new
  constructor
  case keyed => exact hk
  case nodup =>
    rw [active, List.nodup_cons, h.active, new]
    exact ⟨by simp, h.nodup⟩
  case distinct =>
    rw [hbegun, List.nodup_append]
    refine ⟨h.distinct, by simp, ?_⟩
    rintro i hi _ hid rfl
    exact hfresh (List.mem_singleton.mp hid ▸ hi)
  case active =>
    intro i
    rw [active, status, List.mem_cons, h.active]
    by_cases hid : id = i
    · simp [hid]
    · simp [hid, Ne.symm hid]
  case begun =>
    intro i
    rw [hbegun, status, List.mem_append, List.mem_singleton, h.begun]
    by_cases hid : id = i
    · simp [hid]
    · simp [hid, Ne.symm hid]
  case ended =>
    intro i
    rw [hended, status, h.ended]
    by_cases hid : id = i
    · subst hid
      simp [new]
    · rw [if_neg hid]
  case current =>
    rw [current, hbegun, active, List.getLast?_append, List.getLast?_singleton]
    simp [Option.filter]

theorem Tracks.ending (h : Tracks r shown) (hk : out.1.Keyed) (going : r.over? id = some false)
    (active : out.1.active = r.active.filter (· != id))
    (current : out.1.current = if r.current = some id then none else r.current)
    (status : ∀ i, out.1.over? i = if id = i then some true else r.over? i)
    (begins : Runner.begun out.2 = []) (ends : Runner.ended out.2 = [id]) :
    Tracks out.1 (shown ++ out.2) := by
  have hbegun : Runner.begun (shown ++ out.2) = Runner.begun shown := by
    rw [begun_append, begins, List.append_nil]
  have hended : Runner.ended (shown ++ out.2) = Runner.ended shown ++ [id] := by
    rw [ended_append, ends]
  have hactive : id ∈ r.active := (h.active id).mpr going
  constructor
  case keyed => exact hk
  case nodup => rw [active]; exact h.nodup.filter _
  case distinct => rw [hbegun]; exact h.distinct
  case active =>
    intro i
    rw [active, status, List.mem_filter, h.active]
    by_cases hid : id = i
    · simp [hid]
    · simp [hid, Ne.symm hid]
  case begun =>
    intro i
    rw [hbegun, status, h.begun]
    by_cases hid : id = i
    · subst hid
      simp [going]
    · rw [if_neg hid]
  case ended =>
    intro i
    rw [hended, status, List.mem_append, List.mem_singleton, h.ended]
    by_cases hid : id = i
    · simp [hid]
    · simp [hid, Ne.symm hid]
  case current =>
    rw [current, hbegun, active, h.current]
    cases (Runner.begun shown).getLast? with
    | none => simp
    | some last =>
      by_cases hid : last = id
      · -- the run begun last has ended, and no other takes its place
        subst hid
        simp [Option.filter, hactive]
      · by_cases hlast : last ∈ r.active <;> simp [Option.filter, hlast, hid]

theorem Tracks.perform (h : Tracks r shown) (a : Act) :
    Tracks (r.perform a).1 (shown ++ (r.perform a).2) := by
  have hk := keyed_perform h.keyed a
  have hturned := turned_perform h.keyed a
  generalize r.perform a = out at hk hturned
  cases hturned with
  | still active current status begins ends => exact h.still hk active current status begins ends
  | beginning new active current status begins ends =>
    exact h.beginning hk new active current status begins ends
  | ending going active current status begins ends =>
    exact h.ending hk going active current status begins ends

theorem Tracks.course (h : Tracks r shown) (acts : List Act) :
    Tracks (r.course acts).1 (shown ++ (r.course acts).2) := by
  induction acts generalizing r shown with
  | nil => simpa using h
  | cons a rest ih =>
    have hrest := ih (h.perform a)
    rwa [List.append_assoc] at hrest

theorem tracks_fresh (registry : Registry) (mappings : List Route) (root : String) :
    Tracks (fresh registry mappings root) [] := by
  constructor
  case keyed => exact keyed_fresh registry mappings root
  all_goals simp [fresh, begun, ended, over?, Table.get?]

/-! ## What is told of the runs in progress -/

/-- An action on a run leaves the other runs alone. -/
theorem get?_control_of_ne {i : String} (hne : i ≠ id) (action : ControlAction) :
    Table.get? (r.control i action).1.runs id = Table.get? r.runs id := by
  unfold control
  cases Table.get? r.runs i with
  | none => rfl
  | some run =>
    dsimp only
    cases run.state.act? action with
    | none => rfl
    | some state => rw [Table.get?_insert, if_neg hne]

theorem sorted_activeRuns (h : r.active.Nodup) : r.activeRuns.Pairwise (· < ·) := by
  have hsorted : r.activeRuns.Pairwise fun a b => decide (a ≤ b) = true := by
    apply List.pairwise_mergeSort
    · intro a b c hab hbc
      exact decide_eq_true (String.le_trans (of_decide_eq_true hab) (of_decide_eq_true hbc))
    · intro a b
      simpa using String.le_total a b
  have hnodup : r.activeRuns.Nodup := (List.mergeSort_perm r.active _).nodup_iff.mpr h
  refine (hsorted.and hnodup).imp fun {a b} ⟨hle, hne⟩ => ?_
  exact String.not_le.mp fun hba => hne (String.le_antisymm (of_decide_eq_true hle) hba)

theorem mem_activeRuns : id ∈ r.activeRuns ↔ id ∈ r.active :=
  List.mem_mergeSort

theorem Tracks.active_iff (h : Tracks r shown) (id : String) :
    id ∈ r.active ↔ id ∈ Runner.begun shown ∧ id ∉ Runner.ended shown := by
  rw [h.active, h.begun, h.ended]
  cases r.over? id with
  | none => simp
  | some status => cases status <;> simp

theorem Tracks.result?_isSome_iff (h : Tracks r shown) (id : String) :
    id ∈ Runner.ended shown ↔ (r.result? id).isSome = true := by
  rw [h.ended, over?]
  cases hrun : Table.get? r.runs id with
  | none => simp [result?, hrun]
  | some run => rw [Runner.result?_isSome_iff hrun, Option.map_some, Option.some.injEq]

/-- What a runner tells of the runs in progress, all these signals having been shown. -/
structure InProgress (r : Runner) (shown : List Signal) : Prop where
  /-- Each run has an id of its own. -/
  distinct : (begun shown).Nodup
  known : ∀ id, id ∈ begun shown ↔ (Table.get? r.runs id).isSome = true
  finished : ∀ id, id ∈ ended shown ↔ (r.result? id).isSome = true
  /-- The runs that have begun and not ended are listed in order, each once. -/
  sorted : r.activeRuns.Pairwise (· < ·)
  listed : ∀ id, id ∈ r.activeRuns ↔ id ∈ begun shown ∧ id ∉ ended shown
  handles : ∀ id, r.hasHandle id = true ↔ id ∈ begun shown ∧ id ∉ ended shown
  /-- The controls address the run begun last, unless it has ended. -/
  addressed : ∀ id, (begun shown).getLast? = some id → id ∉ ended shown →
    ∀ action, r.controlCurrent action = r.control id action
  unaddressed : (∀ id, (begun shown).getLast? = some id → id ∈ ended shown) →
    ∀ action, r.controlCurrent action = (r, false, none)
  others : ∀ action id, (begun shown).getLast? ≠ some id →
    Table.get? (r.controlCurrent action).1.runs id = Table.get? r.runs id

theorem Tracks.inProgress (h : Tracks r shown) : InProgress r shown := by
  have haddressed : ∀ id, (Runner.begun shown).getLast? = some id → id ∉ Runner.ended shown →
      r.current = some id := by
    intro id hlast hgoing
    have hactive := (h.active_iff id).mpr ⟨List.mem_of_getLast? hlast, hgoing⟩
    rw [h.current, hlast]
    simp [Option.filter, hactive]
  have hcurrent : ∀ id, r.current = some id →
      (Runner.begun shown).getLast? = some id ∧ id ∉ Runner.ended shown := by
    intro id hid
    rw [h.current, Option.filter_eq_some_iff] at hid
    exact ⟨hid.1, ((h.active_iff id).mp (by simpa using hid.2)).2⟩
  constructor
  case distinct => exact h.distinct
  case known =>
    intro id
    rw [h.begun, over?]
    cases Table.get? r.runs id <;> simp
  case finished => exact h.result?_isSome_iff
  case sorted => exact sorted_activeRuns h.nodup
  case listed => exact fun id => mem_activeRuns.trans (h.active_iff id)
  case handles =>
    intro id
    rw [hasHandle, List.contains_iff_mem]
    exact h.active_iff id
  case addressed =>
    intro id hlast hgoing action
    rw [controlCurrent, haddressed id hlast hgoing]
  case unaddressed =>
    intro hended action
    have hnone : r.current = none := by
      cases hid : r.current with
      | none => rfl
      | some id =>
        obtain ⟨hlast, hgoing⟩ := hcurrent id hid
        exact absurd (hended id hlast) hgoing
    rw [controlCurrent, hnone]
  case others =>
    intro action id hother
    unfold controlCurrent
    cases hid : r.current with
    | none => rfl
    | some i =>
      have hne : i ≠ id := by
        rintro rfl
        exact hother (hcurrent i hid).1
      exact get?_control_of_ne hne action

end Tracks

/-- However runs begin, move and end on a runner, those in progress are the ones that have been
announced and have not ended, and the controls without a run reach the one begun last alone. -/
theorem runs_in_progress (registry : Registry) (mappings : List Route) (root : String)
    (acts : List Act) : InProgress ((fresh registry mappings root).course acts).1
      ((fresh registry mappings root).course acts).2 :=
  ((tracks_fresh registry mappings root).course acts).inProgress

end Runner

end Workflow
