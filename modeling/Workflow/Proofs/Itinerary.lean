import Workflow.Proofs.RunEvents

/- The steps that a run comes to. The document says where to begin and where each step
   leads on, by its end: to the next step after a success, after a failure to the first
   step with the id that it names (`Pipeline.Leads`). A run that has made some visits is
   where they lead (`Itinerary`), every move of a run keeps that (`log_move`), and so
   the run visits the steps that the document dictates, dispatches nothing but those,
   and ends where they end (`itinerary_of_run`). -/
namespace Workflow

/-! ## What a document dictates -/

namespace Pipeline

variable {p : Pipeline}

/-- Whether a place is that of the first step with an id. -/
def FirstAt (p : Pipeline) (id : String) (i : Nat) : Prop :=
  (∃ s, p.steps[i]? = some s ∧ s.id = some id) ∧
    ∀ j s, j < i → p.steps[j]? = some s → s.id ≠ some id

/-- Where a document leads on from a step that has ended. -/
inductive Leads (p : Pipeline) (i : Nat) : Bool → Nat → Prop where
  | onward (inside : i < p.steps.length) : Leads p i true (i + 1)
  | branch {s : Intent} {target : String} {j : Nat} (step : p.steps[i]? = some s)
      (named : s.onFailure = some target) (first : p.FirstAt target j) : Leads p i false j

/-- Whether a failure of the step at a place leads nowhere: it names no step to go to, or one that
there is not. -/
def Strands (p : Pipeline) (i : Nat) : Prop :=
  ∃ s, p.steps[i]? = some s ∧
    ∀ target, s.onFailure = some target → ∀ t ∈ p.steps, t.id ≠ some target

theorem stepIndex?_eq_some_iff {id : String} {i : Nat} :
    p.stepIndex? id = some i ↔ p.FirstAt id i := by
  unfold stepIndex? FirstAt
  rw [List.findIdx?_eq_some_iff_getElem]
  constructor
  · rintro ⟨hi, hid, hbefore⟩
    refine ⟨⟨p.steps[i], List.getElem?_eq_getElem hi, by simpa using hid⟩, ?_⟩
    intro j s hj hs heq
    obtain ⟨hlt, rfl⟩ := List.getElem?_eq_some_iff.mp hs
    exact hbefore j hj (by simpa using heq)
  · rintro ⟨⟨s, hs, hid⟩, hbefore⟩
    obtain ⟨hi, rfl⟩ := List.getElem?_eq_some_iff.mp hs
    refine ⟨hi, by simpa using hid, fun j hj => ?_⟩
    have := hbefore j _ hj (List.getElem?_eq_getElem (Nat.lt_trans hj hi))
    simpa using this

theorem stepIndex?_eq_none_iff {id : String} :
    p.stepIndex? id = none ↔ ∀ s ∈ p.steps, s.id ≠ some id := by
  simp [stepIndex?, List.findIdx?_eq_none_iff]

theorem FirstAt.lt {id : String} {i : Nat} (h : p.FirstAt id i) : i < p.steps.length := by
  obtain ⟨⟨s, hs, -⟩, -⟩ := h
  exact (List.getElem?_eq_some_iff.mp hs).1

theorem FirstAt.unique {id : String} {i j : Nat} (hi : p.FirstAt id i) (hj : p.FirstAt id j) :
    i = j := by
  have := stepIndex?_eq_some_iff.mpr hi
  rw [stepIndex?_eq_some_iff.mpr hj] at this
  exact (Option.some.inj this).symm

theorem Leads.unique {i j k : Nat} {success : Bool} (hj : p.Leads i success j)
    (hk : p.Leads i success k) : j = k := by
  cases hj with
  | onward =>
    cases hk
    rfl
  | branch step named first =>
    cases hk with
    | branch step' named' first' =>
      obtain rfl := Option.some.inj (step.symm.trans step')
      obtain rfl := Option.some.inj (named.symm.trans named')
      exact first.unique first'

theorem Leads.le {i j : Nat} {success : Bool} (h : p.Leads i success j) : j ≤ p.steps.length := by
  cases h with
  | onward inside => exact inside
  | branch _ _ first => exact Nat.le_of_lt first.lt

/-- A failure that leads on does not strand. -/
theorem Strands.not_leads {i j : Nat} (h : p.Strands i) : ¬ p.Leads i false j := by
  obtain ⟨s, hs, hnowhere⟩ := h
  rintro (_ | ⟨step, named, ⟨⟨t, ht, hid⟩, -⟩⟩)
  obtain rfl := Option.some.inj (hs.symm.trans step)
  exact hnowhere _ named t (List.mem_of_getElem? ht) hid

/-- A run goes from a step to where the document leads, and stops where it leads nowhere. -/
theorem next_leads {i : Nat} {s : Intent} (hs : p.steps[i]? = some s) (success : Bool) :
    (∃ j, Run.next p i success = .head j ∧ p.Leads i success j) ∨
      (success = false ∧ p.Strands i ∧ Run.next p i success = .ending .failure) := by
  unfold Run.next
  cases success with
  | true => exact .inl ⟨i + 1, rfl, .onward (List.getElem?_eq_some_iff.mp hs).1⟩
  | false =>
    rw [hs]
    cases hfail : s.onFailure with
    | none =>
      refine .inr ⟨rfl, ⟨s, hs, ?_⟩, by simp [hfail]⟩
      intro target hnamed
      rw [hfail] at hnamed
      cases hnamed
    | some target =>
      cases hindex : p.stepIndex? target with
      | some j =>
        have hfirst := stepIndex?_eq_some_iff.mp hindex
        exact .inl ⟨j, by simp [hfail, hindex], .branch hs hfail hfirst⟩
      | none =>
        refine .inr ⟨rfl, ⟨s, hs, ?_⟩, by simp [hfail, hindex]⟩
        intro target' hnamed
        obtain rfl := Option.some.inj (hfail.symm.trans hnamed)
        exact stepIndex?_eq_none_iff.mp hindex

end Pipeline

/-- Whether a run may begin at a place for a start point: at the first step with an id, or at an
index up to the one behind the last step. -/
def StartPoint.Begins (p : Pipeline) : StartPoint → Nat → Prop
  | .beginning, i => i = 0
  | .step id, i => p.FirstAt id i
  | .index n, i => i = n ∧ n ≤ p.steps.length

theorem startIndex_eq_ok_iff {p : Pipeline} {start : StartPoint} {i : Nat} :
    p.startIndex start = .ok i ↔ start.Begins p i := by
  cases start with
  | beginning => simp [Pipeline.startIndex, StartPoint.Begins, eq_comm]
  | step id =>
    simp only [Pipeline.startIndex, StartPoint.Begins, ← Pipeline.stepIndex?_eq_some_iff]
    cases p.stepIndex? id <;> simp
  | index n =>
    unfold Pipeline.startIndex StartPoint.Begins
    by_cases hn : n ≤ p.steps.length <;> simp [hn, eq_comm]

theorem StartPoint.Begins.le {p : Pipeline} {start : StartPoint} {i : Nat}
    (h : start.Begins p i) : i ≤ p.steps.length := by
  cases start with
  | beginning => exact h ▸ Nat.zero_le _
  | step id => exact Nat.le_of_lt (Pipeline.FirstAt.lt h)
  | index n => exact h.1 ▸ h.2

/-! ## Visits -/

/-- A step that a run has come to: as it was announced, what was invoked for it, and how it
ended, if it has. -/
structure Visit where
  index : Nat
  stepId : Option String
  name : String
  invocations : List Invocation := []
  success : Option Bool := none

/-- What a visit shows: its beginning, its invocations and, when it has ended, its end. -/
def Visit.signals (runId : String) (v : Visit) : List Signal :=
  .event ⟨runId, .stepStart v.index v.stepId v.name⟩ :: (v.invocations.map .invoke ++
    v.success.toList.map fun success => .event ⟨runId, .stepEnd v.index v.stepId success⟩)

/-- Whether a signal belongs to a step. -/
def Signal.isOfStep : Signal → Bool
  | .event ⟨_, .stepStart _ _ _⟩ | .event ⟨_, .stepEnd _ _ _⟩ | .invoke _ => true
  | .event _ => false

/-- Whether an intent is what a run dispatches for a step: the step compiled in the scope of the
moment, with a note of the run. -/
def Intent.DispatchedFor (intent : Intent) (runId : String) (s : Intent) : Prop :=
  ∃ (scope : Scope) (compiled : Intent) (trace : String),
    scope.ready s = .ok (.dispatch compiled) ∧
      intent = compiled.stamped scope.dryRun trace runId

/-- Whether a visit is one to a step of a document, and nothing was dispatched in it but that
step. -/
def Visit.Of (p : Pipeline) (runId : String) (v : Visit) : Prop :=
  ∃ s, p.steps[v.index]? = some s ∧ v.stepId = s.id ∧
    ∀ i ∈ v.invocations, i.intent.DispatchedFor runId s

/-- Whether a document dictates these visits from a place on, and leads from them to another. -/
inductive Itinerary (p : Pipeline) (start : Nat) : List Visit → Nat → Prop where
  | here : Itinerary p start [] start
  | onward {visits : List Visit} {v : Visit} {success : Bool} {j : Nat}
      (path : Itinerary p start visits v.index) (ended : v.success = some success)
      (leads : p.Leads v.index success j) : Itinerary p start (visits ++ [v]) j

/-- Whether a run with these visits is in its last one, at a place that the others lead to. -/
def Inside (p : Pipeline) (start : Nat) (visits : List Visit) (i : Nat) : Prop :=
  ∃ before v, visits = before ++ [v] ∧ v.index = i ∧ v.success = none ∧ Itinerary p start before i

/-- Whether the last of these visits is to a step whose failure led nowhere. -/
def Stranded (p : Pipeline) (start : Nat) (visits : List Visit) : Prop :=
  ∃ before v, visits = before ++ [v] ∧ v.success = some false ∧ p.Strands v.index ∧
    Itinerary p start before v.index

section Itinerary

variable {p : Pipeline} {start i j : Nat} {visits : List Visit}

theorem Itinerary.last {before : List Visit} {v : Visit}
    (h : Itinerary p start (before ++ [v]) j) :
    ∃ success, v.success = some success ∧ p.Leads v.index success j ∧
      Itinerary p start before v.index := by
  generalize hvisits : before ++ [v] = visits at h
  cases h with
  | here => simp at hvisits
  | onward path ended leads =>
    obtain ⟨rfl, rfl⟩ := List.append_inj' hvisits rfl |>.imp id List.singleton_inj.mp
    exact ⟨_, ended, leads, path⟩

theorem Itinerary.unique (hi : Itinerary p start visits i) (hj : Itinerary p start visits j) :
    i = j := by
  cases hi with
  | here =>
    generalize hvisits : ([] : List Visit) = visits at hj
    cases hj with
    | here => rfl
    | onward => simp at hvisits
  | onward path ended leads =>
    obtain ⟨success, ended', leads', -⟩ := hj.last
    obtain rfl := Option.some.inj (ended.symm.trans ended')
    exact leads.unique leads'

theorem Itinerary.le (h : Itinerary p start visits i) (hs : start ≤ p.steps.length) :
    i ≤ p.steps.length := by
  cases h with
  | here => exact hs
  | onward _ _ leads => exact leads.le

theorem Itinerary.not_inside (h : Itinerary p start visits i) : ¬ Inside p start visits j := by
  rintro ⟨before, v, rfl, -, hopen, -⟩
  obtain ⟨success, hended, -⟩ := h.last
  rw [hopen] at hended
  cases hended

theorem Itinerary.not_stranded (h : Itinerary p start visits i) : ¬ Stranded p start visits := by
  rintro ⟨before, v, rfl, hfailed, hstrands, -⟩
  obtain ⟨success, hended, hleads, -⟩ := h.last
  obtain rfl := Option.some.inj (hfailed.symm.trans hended)
  exact hstrands.not_leads hleads

theorem Inside.not_stranded (h : Inside p start visits i) : ¬ Stranded p start visits := by
  obtain ⟨before, v, rfl, -, hopen, -⟩ := h
  rintro ⟨before', v', hvisits, hfailed, -⟩
  obtain ⟨-, rfl⟩ := List.append_inj' hvisits rfl |>.imp id List.singleton_inj.mp
  rw [hopen] at hfailed
  cases hfailed

/-- Whether the document leads to each of these visits from those before it. -/
def Follows (p : Pipeline) (start : Nat) (visits : List Visit) : Prop :=
  ∀ before v after, visits = before ++ v :: after → Itinerary p start before v.index

theorem Follows.concat {v : Visit} (h : Follows p start visits)
    (path : Itinerary p start visits v.index) : Follows p start (visits ++ [v]) := by
  intro before w after hvisits
  rcases List.eq_nil_or_concat after with rfl | ⟨rest, last, rfl⟩
  · obtain ⟨rfl, rfl⟩ := List.append_inj' hvisits rfl |>.imp id List.singleton_inj.mp
    exact path
  · have hsplit : visits ++ [v] = (before ++ w :: rest) ++ [last] := by
      rw [hvisits]
      simp
    obtain ⟨rfl, -⟩ := List.append_inj' hsplit rfl
    exact h before w rest rfl

theorem Itinerary.follows (h : Itinerary p start visits i) : Follows p start visits := by
  induction h with
  | here => simp [Follows]
  | onward path _ _ ih => exact ih.concat path

theorem Inside.follows (h : Inside p start visits i) : Follows p start visits := by
  obtain ⟨before, v, rfl, rfl, -, hpath⟩ := h
  exact hpath.follows.concat hpath

theorem Stranded.follows (h : Stranded p start visits) : Follows p start visits := by
  obtain ⟨before, v, rfl, -, -, hpath⟩ := h
  exact hpath.follows.concat hpath

end Itinerary

/-! ## The log of a run -/

/-- What signals show of the steps of a run. -/
def ofSteps (signals : List Signal) : List Signal := signals.filter Signal.isOfStep

/-- Where a run is that has made these visits. -/
def Run.IsAt (p : Pipeline) (start : Nat) (run : Run) (visits : List Visit) : Prop :=
  match run.phase with
  | .head i => Itinerary p start visits i
  | .dispatching i intent _ | .awaiting i intent _ => Inside p start visits i ∧
      ∃ s, p.steps[i]? = some s ∧ intent.DispatchedFor run.id s
  | .closing i _ => Inside p start visits i
  | .ending status => status = .failure ∧ Stranded p start visits
  | .finished (.ok .success) => Itinerary p start visits p.steps.length
  | .finished (.ok .failure) => Stranded p start visits
  | .finished (.ok .cancelled) => ∃ i s, Itinerary p start visits i ∧ p.steps[i]? = some s ∧
      run.state.cancelled = true
  | .finished (.error e) => ∃ i s, Itinerary p start visits i ∧ p.steps[i]? = some s ∧
      run.scope.ready s = .error e

/-- What is known of a run that has made these visits and shown these signals. -/
structure Log (p : Pipeline) (start : Nat) (run : Run) (visits : List Visit)
    (shown : List Signal) : Prop where
  pipeline : run.pipeline = p
  visit : ∀ v ∈ visits, v.Of p run.id
  shown : ofSteps shown = visits.flatMap (Visit.signals run.id)
  isAt : run.IsAt p start visits
  below : start ≤ p.steps.length

section Log

variable {p : Pipeline} {start : Nat} {run run' : Run} {visits : List Visit}
  {shown : List Signal}

theorem ofSteps_append (a b : List Signal) : ofSteps (a ++ b) = ofSteps a ++ ofSteps b :=
  List.filter_append a b

/-- A run that only goes somewhere else. -/
theorem Log.stay (h : Log p start run visits shown) (hid : run'.id = run.id)
    (hpipeline : run'.pipeline = run.pipeline) {more : List Signal} (hmore : ofSteps more = [])
    (hat : run'.IsAt p start visits) : Log p start run' visits (shown ++ more) where
  pipeline := hpipeline.trans h.pipeline
  visit := hid ▸ h.visit
  shown := by rw [ofSteps_append, hmore, List.append_nil, hid, h.shown]
  isAt := hat
  below := h.below

/-- A run that comes to a step. -/
theorem Log.enter (h : Log p start run visits shown) {i : Nat} {s : Intent} {name : String}
    (hat : Itinerary p start visits i) (hs : p.steps[i]? = some s) (hid : run'.id = run.id)
    (hpipeline : run'.pipeline = run.pipeline)
    (hin : Inside p start (visits ++ [⟨i, s.id, name, [], none⟩]) i →
      run'.IsAt p start (visits ++ [⟨i, s.id, name, [], none⟩])) :
    Log p start run' (visits ++ [⟨i, s.id, name, [], none⟩])
      (shown ++ [.event ⟨run.id, .stepStart i s.id name⟩]) where
  pipeline := hpipeline.trans h.pipeline
  visit v hv := by
    rw [hid]
    rcases List.mem_append.mp hv with hv | hv
    · exact h.visit v hv
    · obtain rfl := List.mem_singleton.mp hv
      exact ⟨s, hs, rfl, by simp⟩
  shown := by
    rw [ofSteps_append, h.shown, List.flatMap_append, hid]
    rfl
  isAt := hin ⟨visits, _, rfl, rfl, rfl, hat⟩
  below := h.below

/-- A run that goes on with the step that it is in, or ends it. -/
theorem Log.last {before : List Visit} {v v' : Visit} (h : Log p start run (before ++ [v]) shown)
    {more : Signal} (hmore : more.isOfStep = true) (hid : run'.id = run.id)
    (hpipeline : run'.pipeline = run.pipeline)
    (hsignals : v'.signals run.id = v.signals run.id ++ [more]) (hof : v'.Of p run.id)
    (hat : run'.IsAt p start (before ++ [v'])) :
    Log p start run' (before ++ [v']) (shown ++ [more]) where
  pipeline := hpipeline.trans h.pipeline
  visit w hw := by
    rw [hid]
    rcases List.mem_append.mp hw with hw | hw
    · exact h.visit w (List.mem_append_left _ hw)
    · obtain rfl := List.mem_singleton.mp hw
      exact hof
  shown := by
    have hone : ofSteps [more] = [more] := by simp [ofSteps, hmore]
    rw [ofSteps_append, hone, h.shown, hid]
    simp [hsignals]
  isAt := hat
  below := h.below

theorem log_invoke {i : Nat} {intent : Intent} {known : Option (List Resolution)}
    (hp : run.phase = .dispatching i intent known) (h : Log p start run visits shown)
    (r : Resolution) (left : List Resolution) :
    ∃ visits', Log p start { run with phase := .awaiting i intent left } visits'
      (shown ++ [.invoke (run.invocation intent r)]) := by
  have hat := h.isAt
  unfold Run.IsAt at hat
  rw [hp] at hat
  obtain ⟨⟨before, v, rfl, hi, hopen, hpath⟩, s, hs, hfor⟩ := hat
  obtain ⟨s', hs', hstep, hfors⟩ := h.visit v (by simp)
  obtain rfl : s = s' := by
    rw [hi] at hs'
    exact Option.some.inj (hs.symm.trans hs')
  refine ⟨before ++ [{ v with invocations := v.invocations ++ [run.invocation intent r] }], ?_⟩
  refine h.last rfl rfl rfl (by simp [Visit.signals, hopen]) ⟨s, hs', hstep, ?_⟩ ?_
  · intro invocation hmem
    rcases List.mem_append.mp hmem with hmem | hmem
    · exact hfors invocation hmem
    · obtain rfl := List.mem_singleton.mp hmem
      exact hfor
  · exact ⟨⟨before, _, rfl, hi, hopen, hpath⟩, s, hs, hfor⟩

theorem log_close {i : Nat} (hin : Inside p start visits i) (h : Log p start run visits shown)
    (success : Bool) :
    ∃ visits', Log p start
      { run with executed := run.executed + 1, phase := Run.next run.pipeline i success } visits'
      (shown ++ [run.announce (.stepEnd i (run.stepId i) success)]) := by
  obtain ⟨before, v, rfl, hi, hopen, hpath⟩ := hin
  obtain ⟨s, hs, hstep, hfors⟩ := h.visit v (by simp)
  have hpipeline := h.pipeline
  have hstepId : run.stepId i = v.stepId := by
    rw [Run.stepId, hpipeline, ← hi, hs, hstep]
    rfl
  refine ⟨before ++ [{ v with success := some success }], ?_⟩
  refine h.last rfl rfl rfl ?_ ⟨s, hs, hstep, hfors⟩ ?_
  · rw [hstepId, ← hi]
    simp [Visit.signals, hopen, Run.announce]
  · unfold Run.IsAt
    dsimp only
    rw [hpipeline]
    rw [← hi] at hpath ⊢
    rcases Pipeline.next_leads hs success with ⟨j, hnext, hleads⟩ | ⟨rfl, hstrands, hnext⟩
    · rw [hnext]
      exact .onward hpath rfl hleads
    · rw [hnext]
      exact ⟨rfl, before, _, rfl, rfl, hstrands, hpath⟩

/-- What a move of a run shows carries its log on. -/
theorem log_advance {around : Surroundings} {signal : Signal}
    (hmove : Run.Advance around run run' signal) (h : Log p start run visits shown) :
    ∃ visits', Log p start run' visits' (shown ++ [signal]) := by
  have hat := h.isAt
  have hpipeline := h.pipeline
  unfold Run.IsAt at hat
  cases hmove with
  | @success i hp hpast =>
    rw [hp] at hat
    have hend : i = p.steps.length :=
      Nat.le_antisymm (hat.le h.below) (hpipeline ▸ hpast)
    rw [hend] at hat
    exact ⟨visits, h.stay (by rfl) (by rfl) rfl hat⟩
  | @cancelled i s hp hs hflag =>
    rw [hp] at hat
    exact ⟨visits, h.stay (by rfl) (by rfl) rfl ⟨i, s, hat, hpipeline ▸ hs, hflag⟩⟩
  | @refused i s e hp hs _ hready =>
    rw [hp] at hat
    exact ⟨visits, h.stay (by rfl) (by rfl) rfl ⟨i, s, hat, hpipeline ▸ hs, hready⟩⟩
  | @control i s kind hp hs _ _ =>
    rw [hp] at hat
    exact ⟨_, h.enter hat (hpipeline ▸ hs) rfl rfl id⟩
  | @dispatch i s compiled intent hp hs _ hready hstamped =>
    rw [hp] at hat
    refine ⟨_, h.enter hat (hpipeline ▸ hs) rfl rfl fun hin => ?_⟩
    exact ⟨hin, s, hpipeline ▸ hs, run.scope, compiled, around.trace, hready, hstamped⟩
  | invoke hp _ => exact log_invoke hp h _ _
  | served hp =>
    rw [hp] at hat
    exact log_close hat.1 h true
  | close hp =>
    rw [hp] at hat
    exact log_close hat h _
  | ending hp =>
    rw [hp] at hat
    obtain ⟨rfl, hstranded⟩ := hat
    exact ⟨visits, h.stay (by rfl) (by rfl) rfl hstranded⟩

theorem log_answered {outcome : Outcome} (hanswer : Run.Answered outcome run run')
    (h : Log p start run visits shown) : Log p start run' visits shown := by
  have hat := h.isAt
  unfold Run.IsAt at hat
  have hstay : run'.IsAt p start visits → Log p start run' visits shown := by
    intro hat'
    have hall : Log p start run' visits (shown ++ []) :=
      h.stay hanswer.frame.1 hanswer.frame.2.1 rfl hat'
    rwa [List.append_nil] at hall
  refine hstay ?_
  cases hanswer with
  | @granted i intent left hp _ =>
    rw [hp] at hat
    unfold Run.IsAt
    dsimp only
    cases left with
    | nil => exact hat.1
    | cons r rest => exact hat
  | failed hp _ =>
    rw [hp] at hat
    exact hat.1
  | idle _ => exact h.isAt

theorem log_move (h : Log p start run visits shown) (m : Move) :
    ∃ visits', Log p start (run.move m).1 visits' (shown ++ (run.move m).2) := by
  have hm := run.moved m
  generalize run.move m = out at hm ⊢
  cases hm with
  | advance hmove => exact log_advance hmove h
  | answer hanswer => exact ⟨visits, by simpa using log_answered hanswer h⟩
  | @act action state hact =>
    -- an action shows nothing of a step, and takes no cancellation back
    have hnone : ofSteps (action.happening?.map run.announce).toList = [] := by
      cases action <;> rfl
    have hkept : run.state.cancelled = true → state.cancelled = true := by
      intro hc
      have := RunState.cancelled_act hc action
      rwa [RunState.act, hact] at this
    refine ⟨visits, h.stay (by rfl) (by rfl) hnone ?_⟩
    have hat := h.isAt
    unfold Run.IsAt at hat ⊢
    cases hp : run.phase with
    | finished result =>
      rw [hp] at hat
      cases result with
      | error e => exact hat
      | ok status =>
        cases status with
        | success | failure => exact hat
        | cancelled =>
          obtain ⟨i, s, hi, hs, hc⟩ := hat
          exact ⟨i, s, hi, hs, hkept hc⟩
    | head | dispatching | awaiting | closing | ending =>
      rw [hp] at hat
      exact hat
  | nothing => exact ⟨visits, by simpa using h⟩

end Log

/-! ## Ends -/

/-- Whether a run has ended in a way, or does with its next move. -/
inductive Run.Finishing (run : Run) : Except PipelineError RunStatus → Prop where
  | ended {result : Except PipelineError RunStatus} (at_rest : run.phase = .finished result) :
      Finishing run result
  | success {i : Nat} (at_head : run.phase = .head i) (past : run.pipeline.steps.length ≤ i) :
      Finishing run (.ok .success)
  | cancelled {i : Nat} {s : Intent} (at_head : run.phase = .head i)
      (step : run.pipeline.steps[i]? = some s) (flag : run.state.cancelled = true) :
      Finishing run (.ok .cancelled)
  | refused {i : Nat} {s : Intent} {e : PipelineError} (at_head : run.phase = .head i)
      (step : run.pipeline.steps[i]? = some s) (free : run.state = {})
      (ready : run.scope.ready s = .error e) : Finishing run (.error e)
  | ending {status : RunStatus} (at_end : run.phase = .ending status) :
      Finishing run (.ok status)

theorem next_ne_finished (p : Pipeline) (i : Nat) (success : Bool)
    (result : Except PipelineError RunStatus) : Run.next p i success ≠ .finished result := by
  unfold Run.next
  split
  · simp
  · split
    · simp
    · split <;> simp

theorem finishing_of_advance {around : Surroundings} {run run' : Run} {signal : Signal}
    {result : Except PipelineError RunStatus} (hmove : Run.Advance around run run' signal)
    (h : run'.phase = .finished result) : run.Finishing result := by
  cases hmove with
  | success hp hpast =>
    cases h
    exact .success hp hpast
  | cancelled hp hs hflag =>
    cases h
    exact .cancelled hp hs hflag
  | refused hp hs hfree hready =>
    cases h
    exact .refused hp hs hfree hready
  | control | dispatch | invoke => cases h
  | served => exact absurd h (next_ne_finished run.pipeline _ true result)
  | close => exact absurd h (next_ne_finished run.pipeline _ _ result)
  | ending hp =>
    cases h
    exact .ending hp

theorem move_finished_iff {run : Run} {around : Surroundings}
    {result : Except PipelineError RunStatus} :
    (run.move (.advance around)).1.phase = .finished result ↔ run.Finishing result := by
  constructor
  · intro h
    cases hnext : run.advance? around with
    | none =>
      simp only [Run.move, hnext] at h
      exact .ended h
    | some next =>
      simp only [Run.move, hnext] at h
      exact finishing_of_advance (Run.advance_of_advance? hnext) h
  · have hmoves : ∀ {run' : Run} {signal : Signal}, Run.Advance around run run' signal →
        (run.move (.advance around)).1 = run' := by
      intro run' signal hmove
      simp only [Run.move, Run.advance?_of_advance hmove]
    intro h
    cases h with
    | ended hp => simp [Run.move, Run.advance?, hp]
    | success hp hpast => rw [hmoves (.success hp hpast)]
    | cancelled hp hs hflag => rw [hmoves (.cancelled hp hs hflag)]
    | refused hp hs hfree hready => rw [hmoves (.refused hp hs hfree hready)]
    | ending hp => rw [hmoves (.ending hp)]

section Ends

variable {p : Pipeline} {start : Nat} {run : Run} {visits : List Visit} {shown : List Signal}

/-- A run succeeds exactly when its visits lead behind the last step. -/
theorem Log.success_iff (h : Log p start run visits shown) :
    run.Finishing (.ok .success) ↔ Itinerary p start visits p.steps.length := by
  have hat := h.isAt
  unfold Run.IsAt at hat
  constructor
  · intro hfinishing
    cases hfinishing with
    | ended hp =>
      rw [hp] at hat
      exact hat
    | success hp hpast =>
      rw [hp] at hat
      rw [h.pipeline] at hpast
      exact Nat.le_antisymm (hat.le h.below) hpast ▸ hat
    | ending hp =>
      rw [hp] at hat
      cases hat.1
  · intro hpath
    cases hp : run.phase with
    | head i =>
      rw [hp] at hat
      refine .success hp (Nat.le_of_eq ?_)
      rw [h.pipeline, hat.unique hpath]
    | dispatching | awaiting =>
      rw [hp] at hat
      exact absurd hat.1 hpath.not_inside
    | closing =>
      rw [hp] at hat
      exact absurd hat hpath.not_inside
    | ending =>
      rw [hp] at hat
      exact absurd hat.2 hpath.not_stranded
    | finished result =>
      rw [hp] at hat
      -- any other end would have left the run in front of a step, or stranded
      have hfront : ∀ i s, Itinerary p start visits i → p.steps[i]? = some s → False := by
        intro i s hi hs
        obtain rfl := hi.unique hpath
        simp at hs
      match result, hat with
      | .ok .success, _ => exact .ended hp
      | .ok .failure, hat => exact absurd hat hpath.not_stranded
      | .ok .cancelled, ⟨i, s, hi, hs, _⟩ => exact (hfront i s hi hs).elim
      | .error e, ⟨i, s, hi, hs, _⟩ => exact (hfront i s hi hs).elim

/-- A run fails exactly when the failure of its last step leads nowhere. -/
theorem Log.failure_iff (h : Log p start run visits shown) :
    run.Finishing (.ok .failure) ↔ Stranded p start visits := by
  have hat := h.isAt
  unfold Run.IsAt at hat
  constructor
  · intro hfinishing
    cases hfinishing with
    | ended hp =>
      rw [hp] at hat
      exact hat
    | ending hp =>
      rw [hp] at hat
      exact hat.2
  · intro hstranded
    cases hp : run.phase with
    | head i =>
      rw [hp] at hat
      exact absurd hstranded hat.not_stranded
    | dispatching | awaiting =>
      rw [hp] at hat
      exact absurd hstranded hat.1.not_stranded
    | closing =>
      rw [hp] at hat
      exact absurd hstranded hat.not_stranded
    | ending status =>
      rw [hp] at hat
      exact hat.1 ▸ .ending hp
    | finished result =>
      rw [hp] at hat
      match result, hat with
      | .ok .success, hat => exact absurd hstranded hat.not_stranded
      | .ok .failure, _ => exact .ended hp
      | .ok .cancelled, ⟨i, s, hi, _, _⟩ => exact absurd hstranded hi.not_stranded
      | .error e, ⟨i, s, hi, _, _⟩ => exact absurd hstranded hi.not_stranded

theorem Log.follows (h : Log p start run visits shown) : Follows p start visits := by
  have hat := h.isAt
  unfold Run.IsAt at hat
  cases hp : run.phase with
  | head =>
    rw [hp] at hat
    exact hat.follows
  | dispatching | awaiting =>
    rw [hp] at hat
    exact hat.1.follows
  | closing =>
    rw [hp] at hat
    exact hat.follows
  | ending =>
    rw [hp] at hat
    exact hat.2.follows
  | finished result =>
    rw [hp] at hat
    match result, hat with
    | .ok .success, hat => exact hat.follows
    | .ok .failure, hat => exact hat.follows
    | .ok .cancelled, ⟨i, s, hi, _, _⟩ => exact hi.follows
    | .error e, ⟨i, s, hi, _, _⟩ => exact hi.follows

/-- A run that has not ended is in front of the step that its visits lead to. -/
theorem Log.at_head (h : Log p start run visits shown) {i : Nat}
    (hi : Itinerary p start visits i) (hopen : ∀ result, run.phase ≠ .finished result) :
    run.phase = .head i := by
  have hat := h.isAt
  unfold Run.IsAt at hat
  cases hp : run.phase with
  | head j =>
    rw [hp] at hat
    rw [hat.unique hi]
  | dispatching | awaiting =>
    rw [hp] at hat
    exact absurd hat.1 hi.not_inside
  | closing =>
    rw [hp] at hat
    exact absurd hat hi.not_inside
  | ending =>
    rw [hp] at hat
    exact absurd hat.2 hi.not_stranded
  | finished result => exact absurd hp (hopen result)

/-- In front of a step, a run ends cancelled exactly when it is cancelled. -/
theorem finishing_cancelled_iff {i : Nat} {s : Intent} (hp : run.phase = .head i)
    (hs : run.pipeline.steps[i]? = some s) :
    run.Finishing (.ok .cancelled) ↔ run.state.cancelled = true := by
  constructor
  · intro hfinishing
    cases hfinishing with
    | ended hp' => rw [hp] at hp'; cases hp'
    | cancelled _ _ hflag => exact hflag
    | ending hp' => rw [hp] at hp'; cases hp'
  · exact .cancelled hp hs

/-- In front of a step, a run ends with an error exactly when it is free to go on and the step
cannot be compiled. -/
theorem finishing_error_iff {i : Nat} {s : Intent} {e : PipelineError} (hp : run.phase = .head i)
    (hs : run.pipeline.steps[i]? = some s) :
    run.Finishing (.error e) ↔ run.state = {} ∧ run.scope.ready s = .error e := by
  constructor
  · intro hfinishing
    cases hfinishing with
    | ended hp' => rw [hp] at hp'; cases hp'
    | refused hp' hs' hfree hready =>
      rw [hp] at hp'
      cases hp'
      obtain rfl := Option.some.inj (hs.symm.trans hs')
      exact ⟨hfree, hready⟩
  · rintro ⟨hfree, hready⟩
    exact .refused hp hs hfree hready

/-- A run that is free to begin a step that can be compiled begins it. -/
theorem move_begins {around : Surroundings} {i : Nat} {s : Intent} {ready : ReadyStep}
    (hp : run.phase = .head i) (hs : run.pipeline.steps[i]? = some s) (hfree : run.state = {})
    (hready : run.scope.ready s = .ok ready) :
    ∃ name, (run.move (.advance around)).2 = [.event ⟨run.id, .stepStart i s.id name⟩] := by
  cases ready with
  | control kind =>
    have hbegin : Run.Advance around run _ _ := .control hp hs hfree hready
    refine ⟨s.name, ?_⟩
    simp only [Run.move, Run.advance?_of_advance hbegin]
    rfl
  | dispatch compiled =>
    have hbegin : Run.Advance around run _ _ := .dispatch hp hs hfree hready rfl
    refine ⟨(compiled.stamped run.scope.dryRun around.trace run.id).name, ?_⟩
    simp only [Run.move, Run.advance?_of_advance hbegin]
    rfl

end Ends

/-! ## Courses of a runner -/

namespace Runner

/-- Whether a run has ended in a way, or does with its next move. -/
def Ends (r : Runner) (id : String) (result : Except PipelineError RunStatus) : Prop :=
  ∀ trace, (r.perform (.advance id trace)).1.result? id = some result

theorem ends_iff {r : Runner} {id : String} {run : Run} (hk : r.Keyed)
    (h : Table.get? r.runs id = some run) (result : Except PipelineError RunStatus) :
    r.Ends id result ↔ run.Finishing result := by
  have hone : ∀ trace, (r.perform (.advance id trace)).1.result? id = some result ↔
      run.Finishing result := by
    intro trace
    have hmove : r.moveOf? id (.advance id trace) =
        some (.advance ⟨r.registry, r.mappings, trace⟩) := by simp [moveOf?]
    obtain ⟨hrun, -⟩ := perform_seen hk h (.advance id trace)
    rw [hmove, Option.toList_some, Run.course_singleton] at hrun
    rw [result?_eq_some_iff hrun, move_finished_iff]
  constructor
  · exact fun hends => (hone "").mp (hends "")
  · exact fun hfinishing trace => (hone trace).mpr hfinishing

/-- What is known of a run that has made these visits and shown these signals. -/
structure Travelled (p : Pipeline) (start : Nat) (r : Runner) (id : String) (run : Run)
    (visits : List Visit) (shown : List Signal) : Prop where
  /-- Each visit is to a step of the document, and nothing else was dispatched in it. -/
  visit : ∀ v ∈ visits, v.Of p id
  /-- No step is begun, ended or dispatched but in the visits. -/
  nothing_else : ofSteps shown = visits.flatMap (Visit.signals id)
  /-- The document leads to each visit from those before it. -/
  follows : Follows p start visits
  success_iff : r.Ends id (.ok .success) ↔ Itinerary p start visits p.steps.length
  failure_iff : r.Ends id (.ok .failure) ↔ Stranded p start visits
  /-- A run that was cancelled had come to a step. -/
  cancelled : r.result? id = some (.ok .cancelled) →
    ∃ i s, Itinerary p start visits i ∧ p.steps[i]? = some s ∧ run.state.cancelled = true
  /-- A run that ended with an error had come to a step that cannot be compiled. -/
  error : ∀ e, r.result? id = some (.error e) →
    ∃ i s, Itinerary p start visits i ∧ p.steps[i]? = some s ∧ run.scope.ready s = .error e
  /-- A run that has come to a step and not begun it is cancelled there, or ends with the error of
  the step, or begins the step, once it is free to. -/
  in_front : r.result? id = none → ∀ i s, Itinerary p start visits i → p.steps[i]? = some s →
    (r.Ends id (.ok .cancelled) ↔ run.state.cancelled = true) ∧
    (∀ e, r.Ends id (.error e) ↔ run.state = {} ∧ run.scope.ready s = .error e) ∧
    ∀ ready trace, run.state = {} → run.scope.ready s = .ok ready →
      ∃ name, (r.perform (.advance id trace)).2 = [.event ⟨id, .stepStart i s.id name⟩]

theorem travelled_of_log {p : Pipeline} {start : Nat} {r : Runner} {id : String} {run : Run}
    {visits : List Visit} {shown : List Signal} (hk : r.Keyed)
    (hrun : Table.get? r.runs id = some run) (h : Log p start run visits shown) :
    Travelled p start r id run visits shown := by
  have hid : run.id = id := hk id run hrun
  have hat := h.isAt
  unfold Run.IsAt at hat
  constructor
  case visit => exact hid ▸ h.visit
  case nothing_else => exact hid ▸ h.shown
  case follows => exact h.follows
  case success_iff => exact (ends_iff hk hrun _).trans h.success_iff
  case failure_iff => exact (ends_iff hk hrun _).trans h.failure_iff
  case cancelled =>
    intro hresult
    rw [(result?_eq_some_iff hrun _).mp hresult] at hat
    exact hat
  case error =>
    intro e hresult
    rw [(result?_eq_some_iff hrun _).mp hresult] at hat
    exact hat
  case in_front =>
    intro hopen i s hi hs
    have hhead : run.phase = .head i := h.at_head hi fun result hp => by
      rw [(result?_eq_some_iff hrun result).mpr hp] at hopen
      cases hopen
    have hstep : run.pipeline.steps[i]? = some s := by rw [h.pipeline, hs]
    refine ⟨?_, fun e => ?_, fun ready trace hfree hready => ?_⟩
    · rw [ends_iff hk hrun, finishing_cancelled_iff hhead hstep]
    · rw [ends_iff hk hrun, finishing_error_iff hhead hstep]
    · have hmove : r.moveOf? id (.advance id trace) =
          some (.advance ⟨r.registry, r.mappings, trace⟩) := by simp [moveOf?]
      rw [(perform_hit hk hrun hmove).1, ← hid]
      exact move_begins hhead hstep hfree hready

/-- A run that is begun has a log, whatever is done before and after that. -/
theorem log_of_begin {r : Runner} {before : List Act} {id : String} {p : Pipeline}
    {options : RunOptions} {start : Nat} (hk : r.Keyed)
    (hid : Table.get? (r.course before).1.runs id = none) (hbegins : options.start.Begins p start)
    (after : List Act) :
    ∃ run visits,
      Table.get? (r.course (before ++ .begin id p options :: after)).1.runs id = some run ∧
      Log p start run visits (seen id (r.course (before ++ .begin id p options :: after)).2) := by
  have hfirst : Log p start ((r.course before).1.newRun id p options start) []
      [.event ⟨id, .pipelineStart p⟩] := ⟨rfl, by simp, rfl, .here, hbegins.le⟩
  have hmove : ∀ run shown m, (∃ visits, Log p start run visits shown) →
      ∃ visits, Log p start (run.move m).1 visits (shown ++ (run.move m).2) :=
    fun run shown m ⟨visits, h⟩ => log_move h m
  obtain ⟨run, hrun, -, visits, hlog⟩ :=
    kept_of_run (P := fun run shown => ∃ visits, Log p start run visits shown) hmove hk hid
      (startIndex_eq_ok_iff.mpr hbegins) ⟨[], hfirst⟩ after
  exact ⟨run, visits, hrun, hlog⟩

/-- **The itinerary of a run.** Whatever is done around a runner before and after a run is asked
for: if its pipeline has no place for the start point, nothing begins. Otherwise the run begins at
that place, goes where the document leads it, does and dispatches nothing else, succeeds behind the
last step, fails where a failure leads nowhere, and is cancelled in front of a step that there is;
else it can only end at a step that cannot be compiled. -/
theorem itinerary_of_run (registry : Registry) (mappings : List Route) (root : String)
    (before : List Act) (id : String) (p : Pipeline) (options : RunOptions) (after : List Act)
    (hid : Table.get? ((fresh registry mappings root).course before).1.runs id = none) :
    let r := ((fresh registry mappings root).course before).1
    let history := (fresh registry mappings root).course (before ++ .begin id p options :: after)
    ((∀ start, ¬ options.start.Begins p start) →
      (∃ e, r.begin id p options = .error e) ∧ r.perform (.begin id p options) = (r, [])) ∧
    ∀ start, options.start.Begins p start → ∃ run visits,
      Table.get? history.1.runs id = some run ∧
      Travelled p start history.1 id run visits (seen id history.2) := by
  intro r history
  have hk := keyed_fresh registry mappings root
  refine ⟨?_, ?_⟩
  · intro hnowhere
    rcases r.perform_begin id p options with ⟨start, -, hs, -⟩ | ⟨-, hnothing⟩
    · exact absurd (startIndex_eq_ok_iff.mp hs) (hnowhere start)
    · cases hs : p.startIndex options.start with
      | ok start => exact absurd (startIndex_eq_ok_iff.mp hs) (hnowhere start)
      | error e => exact ⟨⟨e, begin_error hs id⟩, hnothing⟩
  · intro start hbegins
    obtain ⟨run, visits, hrun, hlog⟩ := log_of_begin hk hid hbegins after
    exact ⟨run, visits, hrun, travelled_of_log (keyed_course hk _) hrun hlog⟩

/-- A pipeline whose first step, when it fails, leads behind the second. -/
def withWayOut : Pipeline where
  name := "release"
  steps := [
    { id := some "publish", name := "release.publish", onFailure := some "undo" },
    { id := some "tell", name := "system.setVar"
      payload := .obj [("name", .str "told"), ("value", .str "yes")] },
    { id := some "undo", name := "system.setVar"
      payload := .obj [("name", .str "undone"), ("value", .str "yes")] }]

/-- A run of it in which the first step fails. -/
def publishFailed : List Act :=
  [.advance "r" "", .advance "r" "", .answer "r" (.failure "refused"), .advance "r" "",
    .advance "r" "", .advance "r" ""]

/-- The second step is left out, and the run succeeds. -/
theorem itinerary_of_failed_publishing :
    Table.get? ((fresh [] [] "/").course []).1.runs "r" = none ∧
    ∃ visits, (ofSteps (seen "r" ((fresh [] [] "/").course
        ([] ++ .begin "r" withWayOut {} :: publishFailed)).2)).length = 5 ∧
      ofSteps (seen "r" ((fresh [] [] "/").course
        ([] ++ .begin "r" withWayOut {} :: publishFailed)).2) =
          visits.flatMap (Visit.signals "r") ∧
      Itinerary withWayOut 0 visits withWayOut.steps.length := by
  refine ⟨rfl, ?_⟩
  obtain ⟨run, visits, -, htravelled⟩ :=
    (itinerary_of_run [] [] "/" [] "r" withWayOut {} publishFailed rfl).2 0 rfl
  refine ⟨visits, by with_unfolding_all rfl, htravelled.nothing_else, ?_⟩
  refine htravelled.success_iff.mp fun trace => ?_
  with_unfolding_all rfl

end Runner

end Workflow
