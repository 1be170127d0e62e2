import Workflow.Proofs.Attendance
import Workflow.Proofs.LateCancellations

/- How long runs are. A step that succeeds leads to the next, so between two failures a run goes
   onward through its document, and each failure lets it go through the document once more
   (`Itinerary.length_le`). If failures lead only onward, nothing is done twice
   (`Itinerary.ascends`). `lengths_of_run` says so of every run, and that a run which is
   attended to ends within these bounds. -/
namespace Workflow

/-- Whether failures lead only onward. -/
def Pipeline.Forward (p : Pipeline) : Prop :=
  ∀ i s target j, p.steps[i]? = some s → s.onFailure = some target → p.FirstAt target j → i < j

theorem Pipeline.Leads.lt {p : Pipeline} {i j : Nat} {success : Bool} (h : p.Leads i success j)
    (hforward : p.Forward) : i < j := by
  cases h with
  | onward => exact Nat.lt_succ_self i
  | branch step named first => exact hforward _ _ _ _ step named first

/-! ## Visits counted -/

/-- Whether a visit ended in a failure. -/
def Visit.failed (v : Visit) : Bool := v.success == some false

section Visits

variable {p : Pipeline} {start i : Nat} {visits : List Visit}

theorem Itinerary.length_le (h : Itinerary p start visits i) :
    visits.length ≤ visits.countP Visit.failed * p.steps.length + i := by
  induction h with
  | here => exact Nat.zero_le _
  | @onward visits v success j path ended leads ih =>
    rw [List.length_append, List.length_singleton, List.countP_append, List.countP_singleton]
    cases leads with
    | onward inside =>
      have hfine : v.failed = false := by simp [Visit.failed, ended]
      rw [hfine]
      simp only [Bool.false_eq_true, if_false, Nat.add_zero]
      omega
    | branch step named first =>
      -- the failure pays for all the steps behind the place that it leads to
      have hfails : v.failed = true := by simp [Visit.failed, ended]
      have hinside : v.index < p.steps.length := (List.getElem?_eq_some_iff.mp step).1
      rw [hfails, if_pos rfl, Nat.add_mul, Nat.one_mul]
      omega

theorem Itinerary.ascends (h : Itinerary p start visits i) (hforward : p.Forward) :
    start + visits.length ≤ i ∧ (visits.map Visit.index).Pairwise (· < ·) ∧
      ∀ v ∈ visits, start ≤ v.index ∧ v.index < i := by
  induction h with
  | here => simp
  | @onward visits v success j path ended leads ih =>
    obtain ⟨hlength, hsorted, hbetween⟩ := ih
    have hlt := leads.lt hforward
    refine ⟨?_, ?_, fun w hw => ?_⟩
    · rw [List.length_append, List.length_singleton]
      omega
    · rw [List.map_append, List.pairwise_append]
      refine ⟨hsorted, List.pairwise_singleton _ _, fun a ha b hb => ?_⟩
      obtain ⟨w, hw, rfl⟩ := List.mem_map.mp ha
      rw [List.map_singleton, List.mem_singleton] at hb
      rw [hb]
      exact (hbetween w hw).2
    · rcases List.mem_append.mp hw with hw | hw
      · have := hbetween w hw
        omega
      · rw [List.mem_singleton.mp hw]
        omega

/-- The last of the visits is inside the document, and the others lead to it. -/
theorem Follows.length_le (h : Follows p start visits)
    (hinside : ∀ v ∈ visits, v.index < p.steps.length) :
    visits.length ≤ (visits.countP Visit.failed + 1) * p.steps.length := by
  rcases List.eq_nil_or_concat visits with rfl | ⟨before, v, rfl⟩
  · exact Nat.zero_le _
  · have hpath := (h before v [] (List.concat_eq_append ▸ rfl)).length_le
    have hv := hinside v (by simp)
    rw [List.concat_eq_append, List.length_append, List.length_singleton, List.countP_append,
      Nat.add_mul, Nat.add_mul, Nat.one_mul]
    omega

theorem Follows.ascends (h : Follows p start visits) (hforward : p.Forward)
    (hinside : ∀ v ∈ visits, v.index < p.steps.length) :
    visits.length ≤ p.steps.length - start ∧ (visits.map Visit.index).Pairwise (· < ·) ∧
      ∀ v ∈ visits, start ≤ v.index := by
  rcases List.eq_nil_or_concat visits with rfl | ⟨before, v, rfl⟩
  · simp
  · rw [List.concat_eq_append] at h hinside ⊢
    have hpath := h before v [] rfl
    -- the step leads to the one behind it, wherever the run goes
    have hv := hinside v (by simp)
    have hon : Itinerary p start (before ++ [{ v with success := some true }]) (v.index + 1) :=
      .onward hpath rfl (.onward hv)
    obtain ⟨hlength, hsorted, hbetween⟩ := hon.ascends hforward
    refine ⟨?_, by simpa using hsorted, fun w hw => ?_⟩
    · rw [List.length_append, List.length_singleton] at hlength ⊢
      omega
    · rcases List.mem_append.mp hw with hw | hw
      · exact (hbetween w (by simp [hw])).1
      · rw [List.mem_singleton.mp hw]
        exact (hbetween { v with success := some true } (by simp)).1

end Visits

/-! ## Signals counted -/

/-- The index of the step that a signal tells the beginning of. -/
def Signal.begunIndex? : Signal → Option Nat
  | .event ⟨_, .stepStart i _ _⟩ => some i
  | _ => none

/-- The indices of the steps that have begun, one after the other. -/
def begunIndices (shown : List Signal) : List Nat := shown.filterMap Signal.begunIndex?

theorem length_begunIndices (shown : List Signal) :
    (begunIndices shown).length = shown.countP Signal.startsStep := by
  rw [begunIndices, List.length_filterMap_eq_countP]
  refine List.countP_congr fun s _ => ?_
  unfold Signal.begunIndex? Signal.startsStep
  split <;> simp

section Signals

variable {runId : String} {visits : List Visit} {shown : List Signal}

theorem Visit.signals_begun (runId : String) (v : Visit) :
    begunIndices (v.signals runId) = [v.index] := by
  have hcalls : (v.invocations.map Signal.invoke).filterMap Signal.begunIndex? = [] := by
    simp [List.filterMap_map, Function.comp_def, Signal.begunIndex?]
  cases hv : v.success <;> simp [signals, begunIndices, hv, hcalls, Signal.begunIndex?]

theorem Visit.signals_failed (runId : String) (v : Visit) :
    (v.signals runId).countP Signal.failsStep = if v.failed then 1 else 0 := by
  have hcalls : (v.invocations.map Signal.invoke).countP Signal.failsStep = 0 := by
    simp [List.countP_eq_zero, Signal.failsStep]
  unfold signals failed
  rw [List.countP_cons, List.countP_append, hcalls]
  cases v.success with
  | none => rfl
  | some success => cases success <;> rfl

theorem Visit.signals_ended (runId : String) (v : Visit) :
    (v.signals runId).countP Signal.endsStep ≤ 1 := by
  have hcalls : (v.invocations.map Signal.invoke).countP Signal.endsStep = 0 := by
    simp [List.countP_eq_zero, Signal.endsStep]
  unfold signals
  rw [List.countP_cons, List.countP_append, hcalls]
  cases v.success with
  | none => exact Nat.zero_le _
  | some success => exact Nat.le_refl _

theorem countP_ofSteps {q : Signal → Bool} (hq : ∀ s, q s = true → s.isOfStep = true)
    (shown : List Signal) : (ofSteps shown).countP q = shown.countP q := by
  rw [ofSteps, List.countP_filter]
  refine List.countP_congr fun s _ => ?_
  rw [Bool.and_eq_true]
  exact and_iff_left_of_imp (hq s)

theorem begunIndices_of_ofSteps (h : ofSteps shown = visits.flatMap (Visit.signals runId)) :
    begunIndices shown = visits.map Visit.index := by
  have hall : (fun s : Signal => if s.isOfStep then s.begunIndex? else none) =
      Signal.begunIndex? := by
    funext s
    cases s with
    | event e =>
      obtain ⟨runId, happening⟩ := e
      cases happening <;> rfl
    | invoke => rfl
  have hsteps : begunIndices (ofSteps shown) = begunIndices shown := by
    rw [begunIndices, ofSteps, List.filterMap_filter, hall, begunIndices]
  rw [← hsteps, h]
  clear h hsteps
  induction visits with
  | nil => rfl
  | cons v visits ih =>
    rw [List.flatMap_cons, begunIndices, List.filterMap_append, ← begunIndices, ← begunIndices, ih,
      v.signals_begun]
    rfl

theorem countP_failsStep_of_ofSteps (h : ofSteps shown = visits.flatMap (Visit.signals runId)) :
    shown.countP Signal.failsStep = visits.countP Visit.failed := by
  have hof : ∀ s : Signal, s.failsStep = true → s.isOfStep = true := by
    intro s hs
    unfold Signal.failsStep at hs
    split at hs
    · rfl
    · cases hs
  rw [← countP_ofSteps hof, h]
  clear h
  induction visits with
  | nil => rfl
  | cons v visits ih =>
    rw [List.flatMap_cons, List.countP_append, ih, v.signals_failed, List.countP_cons, Nat.add_comm]

theorem countP_endsStep_of_ofSteps (h : ofSteps shown = visits.flatMap (Visit.signals runId)) :
    shown.countP Signal.endsStep ≤ visits.length := by
  have hof : ∀ s : Signal, s.endsStep = true → s.isOfStep = true := by
    intro s hs
    unfold Signal.endsStep at hs
    split at hs
    · rfl
    · cases hs
  rw [← countP_ofSteps hof, h]
  clear h
  induction visits with
  | nil => exact Nat.le_refl _
  | cons v visits ih =>
    have hv := v.signals_ended runId
    rw [List.flatMap_cons, List.countP_append, List.length_cons]
    omega

end Signals

/-! ## Lengths -/

/-- What is known of the length of a run that has shown these signals. -/
structure Measured (p : Pipeline) (start : Nat) (run : Run) (shown : List Signal) : Prop where
  /-- The steps that it has done are those whose ends it has told, -/
  executed : run.executed = shown.countP Signal.endsStep
  /-- and they have begun. -/
  begun : run.executed ≤ (begunIndices shown).length
  bounded : (begunIndices shown).length ≤ (shown.countP Signal.failsStep + 1) * p.steps.length
  onward : p.Forward → (begunIndices shown).Pairwise (· < ·) ∧
    (∀ i ∈ begunIndices shown, start ≤ i ∧ i < p.steps.length) ∧
    (begunIndices shown).length ≤ p.steps.length - start

/-- A run counts the ends of steps that it tells. -/
theorem executed_move {run : Run} {shown : List Signal}
    (h : run.executed = shown.countP Signal.endsStep) (m : Move) :
    (run.move m).1.executed = (shown ++ (run.move m).2).countP Signal.endsStep := by
  have hm := run.moved m
  generalize run.move m = out at hm ⊢
  rw [List.countP_append, ← h]
  cases hm with
  | advance hadvance => cases hadvance <;> rfl
  | answer hanswer => exact hanswer.frame.2.2.2
  | @act action state hact => cases action <;> rfl
  | nothing => rfl

theorem measured_of_log {p : Pipeline} {start : Nat} {run : Run} {visits : List Visit}
    {shown : List Signal} (h : Log p start run visits shown)
    (hexecuted : run.executed = shown.countP Signal.endsStep) : Measured p start run shown := by
  have hinside : ∀ v ∈ visits, v.index < p.steps.length := by
    intro v hv
    obtain ⟨s, hs, -⟩ := h.visit v hv
    exact (List.getElem?_eq_some_iff.mp hs).1
  have hindices := begunIndices_of_ofSteps h.shown
  have hlength : (begunIndices shown).length = visits.length := by
    rw [hindices, List.length_map]
  constructor
  case executed => exact hexecuted
  case begun =>
    rw [hexecuted, hlength]
    exact countP_endsStep_of_ofSteps h.shown
  case bounded =>
    rw [hlength, countP_failsStep_of_ofSteps h.shown]
    exact h.follows.length_le hinside
  case onward =>
    intro hforward
    obtain ⟨hcount, hsorted, hstart⟩ := h.follows.ascends hforward hinside
    refine ⟨hindices ▸ hsorted, fun i hi => ?_, hlength ▸ hcount⟩
    rw [hindices] at hi
    obtain ⟨v, hv, rfl⟩ := List.mem_map.mp hi
    exact ⟨hstart v hv, hinside v hv⟩

namespace Runner

/-- Whether a run of a runner is over at some time, having done at most so many steps. -/
def EndsWithin (runner : Nat → Runner) (id : String) (bound : Nat) : Prop :=
  ∃ time run result, Table.get? (runner time).runs id = some run ∧
    (runner time).result? id = some result ∧ run.executed ≤ bound

/-- What is done behind an act, as a course of the runner that the act leaves. -/
theorem course_behind (r : Runner) (before : List Act) (a : Act) (after : List Act) :
    r.course (before ++ a :: after) =
      (((r.course (before ++ [a])).1.course after).1,
        (r.course (before ++ [a])).2 ++ ((r.course (before ++ [a])).1.course after).2) := by
  rw [← course_append, List.append_assoc, List.singleton_append]

section Lengths

variable {r : Runner} {before : List Act} {id : String} {p : Pipeline} {options : RunOptions}
  {start : Nat}

theorem measured_of_run (hk : r.Keyed) (hid : Table.get? (r.course before).1.runs id = none)
    (hstart : options.start.Begins p start) (after : List Act) :
    ∃ run, Table.get? (r.course (before ++ .begin id p options :: after)).1.runs id = some run ∧
      Measured p start run (seen id (r.course (before ++ .begin id p options :: after)).2) := by
  have hs := startIndex_eq_ok_iff.mpr hstart
  have hmove : ∀ run shown m,
      (∃ visits, Log p start run visits shown) ∧ run.executed = shown.countP Signal.endsStep →
      (∃ visits, Log p start (run.move m).1 visits (shown ++ (run.move m).2)) ∧
        (run.move m).1.executed = (shown ++ (run.move m).2).countP Signal.endsStep :=
    fun run shown m ⟨⟨visits, h⟩, hexecuted⟩ => ⟨log_move h m, executed_move hexecuted m⟩
  obtain ⟨run, hrun, -, ⟨visits, hlog⟩, hexecuted⟩ :=
    kept_of_run (P := fun run shown => (∃ visits, Log p start run visits shown) ∧
        run.executed = shown.countP Signal.endsStep) hmove hk hid hs
      ⟨⟨[], rfl, by simp, rfl, .here, hstart.le⟩, rfl⟩ after
  exact ⟨run, hrun, measured_of_log hlog hexecuted⟩

/-- A run that is attended to ends within any bound on the steps that begin. -/
theorem endsWithin_of_attended (hk : r.Keyed)
    (hid : Table.get? (r.course before).1.runs id = none) (hstart : options.start.Begins p start)
    {acts : Nat → Act}
    (hattended : Attended (r.course (before ++ [.begin id p options])).1 id acts) {bound : Nat}
    (hbound : ∀ time, (begunIndices
      (seen id (r.course (before ++ .begin id p options :: doneBy acts time)).2)).length ≤ bound) :
    EndsWithin (fun time => (r.course (before ++ .begin id p options :: doneBy acts time)).1) id
      bound := by
  obtain ⟨begun, hbegun, -⟩ := measured_of_run hk hid hstart []
  have hfew : ∀ time, (r.course (before ++ [.begin id p options])).1.begunBy id acts time ≤ bound := by
    intro time
    have hall := hbound time
    rw [length_begunIndices, course_behind, seen_append, List.countP_append] at hall
    exact Nat.le_trans (Nat.le_add_left _ _) hall
  obtain ⟨time, last, hlast, hover⟩ := hattended.over (keyed_course hk _) hbegun hfew 0
  have hrun : Table.get? (r.course (before ++ .begin id p options :: doneBy acts time)).1.runs id =
      some last := by
    rw [course_behind]
    exact hlast
  obtain ⟨run, hsame, hlengths⟩ := measured_of_run hk hid hstart (doneBy acts time)
  obtain rfl := Option.some.inj (hrun.symm.trans hsame)
  obtain ⟨result, hresult⟩ := Option.isSome_iff_exists.mp ((result?_isSome_iff hrun).mpr hover)
  exact ⟨time, last, result, hrun, hresult, Nat.le_trans hlengths.begun (hbound time)⟩

end Lengths

/-- **The lengths of runs.** Whatever is done around a runner before and after a run is begun at a
place of its pipeline, the run does at most as many steps as its pipeline has for each step of it
that fails, and as many once more; if failures lead only onward, the steps that it begins stand in
ascending order from that place on, so it does none of them twice. A run that is attended to comes
to its end within these bounds: if only so many steps fail, and, where failures lead only onward,
however many fail. -/
theorem lengths_of_run (registry : Registry) (mappings : List Route) (root : String)
    (before : List Act) (id : String) (p : Pipeline) (options : RunOptions) (start : Nat)
    (hid : Table.get? ((fresh registry mappings root).course before).1.runs id = none)
    (hstart : options.start.Begins p start) :
    let history := fun after =>
      (fresh registry mappings root).course (before ++ .begin id p options :: after)
    (∀ after, ∃ run, Table.get? (history after).1.runs id = some run ∧
      Measured p start run (seen id (history after).2)) ∧
    ∀ acts, Attended (history []).1 id acts →
      (∀ failures, (∀ time,
          (seen id (history (doneBy acts time)).2).countP Signal.failsStep ≤ failures) →
        EndsWithin (fun time => (history (doneBy acts time)).1) id
          ((failures + 1) * p.steps.length)) ∧
      (p.Forward → EndsWithin (fun time => (history (doneBy acts time)).1) id
        (p.steps.length - start)) := by
  intro history
  have hk := keyed_fresh registry mappings root
  have hmeasured := measured_of_run hk hid hstart
  refine ⟨hmeasured, fun acts hattended => ⟨fun failures hfailures => ?_, fun hforward => ?_⟩⟩
  · refine endsWithin_of_attended hk hid hstart hattended fun time => ?_
    obtain ⟨run, -, hlengths⟩ := hmeasured (doneBy acts time)
    exact Nat.le_trans hlengths.bounded
      (Nat.mul_le_mul_right _ (Nat.succ_le_succ (hfailures time)))
  · refine endsWithin_of_attended hk hid hstart hattended fun time => ?_
    obtain ⟨run, -, hlengths⟩ := hmeasured (doneBy acts time)
    exact (hlengths.onward hforward).2.2

/-- The bound is reached by a step that is tried again until it succeeds. -/
example :
    let again : Pipeline :=
      { name := "fetch"
        steps := [{ id := some "page", name := "fetch.page", onFailure := some "page" }] }
    let attempt := fun outcome : Outcome =>
      [Act.advance "r" "", .advance "r" "", .answer "r" outcome, .advance "r" ""]
    ((Table.get? ((fresh [] [] "/").course (.begin "r" again {} :: attempt (.failure "refused") ++
      attempt (.failure "refused") ++ attempt { success := true })).1.runs "r").map
        Run.executed) = some ((2 + 1) * again.steps.length) := by
  with_unfolding_all rfl

theorem forward_withWayOut : withWayOut.Forward := by
  intro i s target j hs hnamed hfirst
  match i, hs with
  | 0, hs =>
    cases hs
    cases hnamed
    obtain ⟨⟨t, ht, hid⟩, -⟩ := hfirst
    refine Nat.pos_of_ne_zero ?_
    rintro rfl
    cases ht
    exact absurd hid (by decide)
  | 1, hs | 2, hs =>
    cases hs
    cases hnamed

/-- A run whose handlers refuse everything comes to its end, since its failures lead only onward. -/
theorem lengths_of_refused_publishing :
    Table.get? ((fresh [] [] "/").course []).1.runs "r" = none ∧ withWayOut.Forward ∧
    EndsWithin (fun time => ((fresh [] [] "/").course
      ([] ++ .begin "r" withWayOut {} :: doneBy (inTurn "r" fun _ => .failure "refused") time)).1)
      "r" 3 := by
  refine ⟨rfl, forward_withWayOut, ?_⟩
  have hbegun : Table.get? ((fresh [] [] "/").course [.begin "r" withWayOut {}]).1.runs "r" =
      some (newRun (fresh [] [] "/") "r" withWayOut {} 0) := rfl
  exact ((lengths_of_run [] [] "/" [] "r" withWayOut {} 0 rfl rfl).2 _
    (attended_inTurn hbegun rfl _)).2 forward_withWayOut

end Runner

end Workflow
