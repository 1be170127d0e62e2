import Workflow.Proofs.Reactions

/- What subscribers know of runs that they may act on while they are called. Each of them hears of
   every event once. Two of them hear of the events of a kind in one order if none of those from
   the earlier one up to the later one announces anything while it hears of such an event, and
   whoever has nobody of that sort before it hears of them in the order in which they happen; the
   last pause or resume that it has heard of tells whether the run is paused (`hearings_of_acts`).
   Behind a subscriber that undoes a pause at once, that pause is heard of after its end
   (`pause_heard_late`). -/
namespace Workflow

/-! ## Pauses of a run -/

/-- What an event tells of whether a run is paused. -/
def Event.paused? (id : String) (e : Event) : Option Bool :=
  if e.runId = id then
    match e.happening with
    | .pipelinePause => some true
    | .pipelineResume => some false
    | _ => none
  else none

/-- Whether the last pause or resume of a run among events is a pause. -/
def endsPaused (id : String) (events : List Event) : Bool :=
  (events.filterMap (·.paused? id)).getLast? == some true

section EndsPaused

variable {id : String} {events later : List Event}

theorem endsPaused_silent (h : ∀ e ∈ later, e.paused? id = none) :
    endsPaused id (events ++ later) = endsPaused id events := by
  have hnone : later.filterMap (·.paused? id) = [] := List.filterMap_eq_nil_iff.mpr h
  rw [endsPaused, List.filterMap_append, hnone, List.append_nil]
  rfl

theorem endsPaused_told {e : Event} {paused : Bool} (h : e.paused? id = some paused) :
    endsPaused id (events ++ [e]) = paused := by
  cases paused <;> simp [endsPaused, h]

/-- What tells nothing of that can be left out. -/
theorem endsPaused_filter {kind : Event → Bool}
    (h : ∀ e, (e.paused? id).isSome → kind e = true) :
    endsPaused id (events.filter kind) = endsPaused id events := by
  have hsame : (events.filter kind).filterMap (·.paused? id) = events.filterMap (·.paused? id) := by
    induction events with
    | nil => rfl
    | cons e rest ih =>
      by_cases hkind : kind e = true
      · rw [List.filter_cons_of_pos hkind, List.filterMap_cons, List.filterMap_cons, ih]
      · have hnone : e.paused? id = none := by
          cases hpaused : e.paused? id with
          | none => rfl
          | some paused => exact absurd (h e (by rw [hpaused]; rfl)) hkind
        rw [List.filter_cons_of_neg hkind, ih, List.filterMap_cons_none hnone]
  rw [endsPaused, hsame, endsPaused]

end EndsPaused

/-- Of the moves of a run, those that pause or resume it tell so, and others do neither. -/
theorem Run.endsPaused_move {run : Run} {shown : List Signal}
    (h : run.state.paused = endsPaused run.id (shown.filterMap Signal.event?)) (m : Move) :
    (run.move m).1.state.paused =
      endsPaused run.id ((shown ++ (run.move m).2).filterMap Signal.event?) := by
  rw [List.filterMap_append]
  have hmoved := run.moved m
  generalize run.move m = out at hmoved
  cases hmoved with
  | nothing => rwa [endsPaused_silent (by simp)]
  | answer hanswer => rwa [endsPaused_silent (by simp), hanswer.frame.2.2.1]
  | advance hadvance =>
    rw [endsPaused_silent, hadvance.state]
    · exact h
    · cases hadvance <;> simp [Signal.event?, announce, Event.paused?, Happening.ended]
  | @act action state hact =>
    cases action with
    | pause =>
      obtain ⟨-, rfl⟩ : _ ∧ _ = state := by simpa [RunState.act?] using hact
      exact (endsPaused_told (by simp [Event.paused?])).symm
    | resume =>
      obtain ⟨-, rfl⟩ : _ ∧ _ = state := by simpa [RunState.act?] using hact
      exact (endsPaused_told (by simp [Event.paused?])).symm
    | cancel =>
      obtain ⟨-, rfl⟩ : _ ∧ _ = state := by simpa [RunState.act?] using hact
      rw [endsPaused_silent (by simp [ControlAction.happening?])]
      exact h

namespace Runner

theorem events_seen (id : String) (signals : List Signal) :
    (seen id signals).filterMap Signal.event? =
      (signals.filterMap Signal.event?).filter (·.runId == id) := by
  rw [seen, List.filterMap_filter, List.filter_filterMap]
  congr 1
  funext s
  cases s with
  | event e => simp [Signal.event?, Signal.runId, Option.filter]
  | invoke i => simp [Signal.event?]

/-- Where there were no runs, the events of a course tell of every run whether it is paused. -/
theorem paused_of_course {r : Runner} (hnone : r.runs = []) {acts : List Act} {id : String}
    {run : Run} (hrun : Table.get? (r.course acts).1.runs id = some run) :
    run.state.paused = endsPaused id ((r.course acts).2.filterMap Signal.event?) := by
  have hk := keyed_of_unbegun hnone
  obtain ⟨before, p, options, start, after, rfl, hunknown, hstart⟩ :=
    begun_of_known hk (unknown_of_unbegun hnone id) (by rw [hrun]; rfl)
  obtain ⟨run', hrun', -, hid, hpaused⟩ := kept_of_run
    (P := fun run shown => run.id = id ∧
      run.state.paused = endsPaused run.id (shown.filterMap Signal.event?))
    (fun run shown m ⟨hid, h⟩ => ⟨(run.moved m).frame.1.trans hid,
      (run.moved m).frame.1.symm ▸ run.endsPaused_move h m⟩)
    hk hunknown hstart ⟨rfl, by simp [newRun, endsPaused, Signal.event?, Event.paused?]⟩ after
  obtain rfl : run' = run := Option.some.inj (hrun'.symm.trans hrun)
  rw [hpaused, hid, events_seen]
  refine endsPaused_filter fun e he => ?_
  by_cases he' : e.runId = id <;> simp_all [Event.paused?]

end Runner

/-! ## The opening of a meeting -/

theorem Bus.subscribers_foldl (bus : Bus Unit) (n : Nat) :
    ((List.replicate n ()).foldl Bus.subscribe bus).subscribers =
      bus.subscribers ++ (List.range' bus.next n).map (·, ()) := by
  induction n generalizing bus with
  | zero => simp
  | succ n ih =>
    rw [List.replicate_succ, List.foldl_cons, ih]
    simp [subscribe, List.range'_succ]

namespace Meeting

variable {n : Nat} {r : Runner} {acts : List Act}

theorem toHear_opening (k : Nat) (acts : List Act) :
    toHear k (acts.map fun a => .act (.work (.act a))) = [] := by
  induction acts with
  | nil => rfl
  | cons a rest ih => exact ih

theorem held_opening : (opening n r acts).Held n := by
  constructor
  case subscribers => exact (Bus.subscribers_foldl {} n).trans (List.nil_append _)
  case plain =>
    intro item hitem
    obtain ⟨a, -, rfl⟩ := List.mem_map.mp hitem
    exact trivial

theorem attended_opening : (opening n r acts).Attended n := by
  intro k _
  show ([] ++ toHear k (acts.map _)).Perm []
  rw [toHear_opening]
  exact .nil

theorem balanced_opening {follower : Option Nat} {k : Nat} {kind : Event → Bool} :
    Balanced follower k kind (opening n r acts) := by
  have howed : ∀ acts : List Act,
      owed follower (acts.map fun a => .act (.work (.act a))) = [] := by
    intro acts
    cases follower with
    | none => rfl
    | some j => exact toHear_opening j acts
  constructor
  case level =>
    show Level follower k kind (acts.map _)
    induction acts with
    | nil => exact .nil
    | cons a rest ih => exact .cons (fun _ => by rw [howed, toHear_opening]) ih
  case even =>
    show (_ ++ owed follower (acts.map _)).filter kind = ([] ++ toHear k (acts.map _)).filter kind
    rw [howed, toHear_opening]
    cases follower <;> rfl

/-! ## A whole meeting -/

variable {x x' : Meeting}

/-- What has been announced stays so. -/
theorem Stepped.announced_mem (h : Stepped n x x') {entry : Option Hearing × Event}
    (hentry : entry ∈ x.memory.announced) : entry ∈ x'.memory.announced := by
  have hperform : ∀ (cause : Option Hearing) (a : Act),
      entry ∈ (x.memory.perform cause a).1.announced :=
    fun cause a => List.mem_append_left _ hentry
  cases h with
  | settled | called | announced | returned => exact hentry
  | acted | reacted => exact hperform _ _

/-- What holds of a meeting at each of its steps. -/
structure Orderly (n : Nat) (r : Runner) (x : Meeting) : Prop where
  held : x.Held n
  recorded : x.Recorded r
  attended : x.Attended n
  balanced : ∀ follower k kind, k < n → (∀ j, follower = some j → j < k) →
    Quiet follower k kind x.memory → Balanced follower k kind x

theorem orderly_opening : Orderly n r (opening n r acts) where
  held := held_opening
  recorded := ⟨rfl, rfl⟩
  attended := attended_opening
  balanced _ _ _ _ _ _ := balanced_opening

theorem Orderly.step (h : Orderly n r x) (conduct : Conduct) :
    Orderly n r (x.step (reacting conduct)) := by
  have hstepped := stepped h.held conduct
  constructor
  case held => exact h.held.step hstepped
  case recorded => exact h.recorded.step hstepped
  case attended => exact h.attended.step hstepped
  case balanced =>
    intro follower k kind hk hfollower hquiet
    have hbefore : Quiet follower k kind x.memory :=
      fun i cause e he => hquiet i cause e (hstepped.announced_mem he)
    exact (h.balanced follower k kind hk hfollower hbefore).step hstepped hk hfollower hquiet

end Meeting

/-- What subscribers know when none of them is called any more, so many of them around a runner. -/
structure Audience.Informed (n : Nat) (r : Runner) (m : Audience) : Prop where
  /-- What was done with the runner, by subscribers or not, is a course, and what happens in it is
  announced. -/
  course : m.runner = (r.course m.acts).1 ∧
    m.events = (r.course m.acts).2.filterMap Signal.event?
  /-- Every subscriber has heard of every event once. -/
  once : ∀ k, k < n → (m.heardBy k).Perm m.events
  /-- The first one has heard of them in the order in which they happened. -/
  first : 0 < n → m.heardBy 0 = m.events
  /-- So has anyone of the events of a kind, if nobody before it announced anything while it heard
  of one. -/
  in_order : ∀ kind k, k < n → Meeting.Quiet none k kind m →
    (m.heardBy k).filter kind = m.events.filter kind
  /-- Two have heard of the events of a kind in one order, if nobody from the one up to the other
  announced anything while it heard of one. -/
  together : ∀ kind j k, j < k → k < n → Meeting.Quiet (some j) k kind m →
    (m.heardBy j).filter kind = (m.heardBy k).filter kind
  /-- The last pause or resume of a run that one has heard of tells whether the run is paused, if
  nobody before it announced anything while it heard of a pause or resume of the run. -/
  paused : ∀ id k run, k < n → Meeting.Quiet none k (fun e => (e.paused? id).isSome) m →
    Table.get? m.runner.runs id = some run → run.state.paused = endsPaused id (m.heardBy k)

namespace Meeting

variable {n : Nat} {r : Runner} {x : Meeting}

/-- When all is over, two have heard of the events of a kind in one order, if nobody between them
reacted. -/
theorem Orderly.even {follower : Option Nat} {k : Nat} {kind : Event → Bool} (h : Orderly n r x)
    (hover : x.agenda = []) (hk : k < n) (hfollower : ∀ j, follower = some j → j < k)
    (hquiet : Quiet follower k kind x.memory) :
    (x.memory.told follower).filter kind = (x.memory.heardBy k).filter kind := by
  have heven := (h.balanced follower k kind hk hfollower hquiet).even
  have howed : owed follower x.agenda = [] := by
    rw [hover]
    cases follower <;> rfl
  have hheard : toHear k x.agenda = [] := by
    rw [hover]
    rfl
  rwa [howed, hheard, List.append_nil, List.append_nil] at heven

theorem Orderly.informed (h : Orderly n r x) (hover : x.agenda = []) (hnone : r.runs = []) :
    x.memory.Informed n r := by
  have hin_order : ∀ kind k, k < n → Quiet none k kind x.memory →
      (x.memory.heardBy k).filter kind = x.memory.events.filter kind :=
    fun kind k hk hquiet => (h.even hover hk (by simp) hquiet).symm
  constructor
  case course => exact h.recorded
  case once =>
    intro k hk
    have hattended := h.attended k hk
    rw [hover] at hattended
    rwa [show toHear k [] = [] from rfl, List.append_nil] at hattended
  case first =>
    intro hn
    have hall := hin_order (fun _ => true) 0 hn fun i _ _ _ _ hbetween =>
      absurd hbetween.2 (by omega)
    rwa [List.filter_eq_self.mpr fun _ _ => rfl, List.filter_eq_self.mpr fun _ _ => rfl] at hall
  case in_order => exact hin_order
  case together =>
    intro kind j k hj hk hquiet
    exact h.even hover hk (fun j' hj' => Option.some.inj hj' ▸ hj) hquiet
  case paused =>
    intro id k run hk hquiet hrun
    rw [h.recorded.1] at hrun
    rw [Runner.paused_of_course hnone hrun, ← h.recorded.2, ← endsPaused_filter (fun e he => he),
      ← hin_order _ k hk hquiet]
    exact endsPaused_filter fun e he => he

end Meeting

/-- **Events that subscribers react to.** Whatever is done around a runner, and whatever of runs
the subscribers pause, resume or cancel while they are called, each of them hears of every event
once, and in the order of the others as far as nobody among them reacts. -/
theorem hearings_of_acts (conduct : Conduct) (registry : Registry) (mappings : List Route)
    (root : String) (n : Nat) (acts : List Act) (fuel : Nat)
    (hover : (Exchange.settle (reacting conduct) fuel
      (Meeting.opening n (Runner.fresh registry mappings root) acts)).agenda = []) :
    (Exchange.settle (reacting conduct) fuel
      (Meeting.opening n (Runner.fresh registry mappings root) acts)).memory.Informed n
        (Runner.fresh registry mappings root) :=
  (Exchange.settle_keeps (fun _ h => h.step conduct) Meeting.orderly_opening fuel).informed hover
    rfl

/-- The first subscriber ends each pause of a run as soon as it hears of it. -/
def impatient : Conduct := fun m (k, e) =>
  if k = 0 ∧ e.paused? e.runId = some true ∧
      (Table.get? m.runner.runs e.runId).any (·.state.paused) then
    some { target := e.runId, action := .resume }
  else none

/-- A run that is paused before it ends. -/
def oncePaused : List Act := [
  .begin "r" { name := "idle" } {},
  .control "r" .pause,
  .advance "r" "t"]

theorem hearings_of_once_paused :
    (Exchange.settle (reacting impatient) 30
      (Meeting.opening 2 (Runner.fresh {} [] "/") oncePaused)).agenda = [] ∧
    (Exchange.settle (reacting impatient) 30
      (Meeting.opening 2 (Runner.fresh {} [] "/") oncePaused)).memory.Informed 2
        (Runner.fresh {} [] "/") :=
  ⟨rfl, hearings_of_acts impatient {} [] "/" 2 oncePaused 30 rfl⟩

/-- The second subscriber hears of the end of the pause first, and of the pause then: it has been
told last that a run is paused which is not, and which has ended. -/
theorem pause_heard_late :
    let x := Exchange.settle (reacting impatient) 30
      (Meeting.opening 2 (Runner.fresh {} [] "/") oncePaused)
    x.agenda = [] ∧ x.memory.heardBy 0 ≠ x.memory.heardBy 1 ∧
    endsPaused "r" (x.memory.heardBy 1) = true ∧
    (Table.get? x.memory.runner.runs "r").map (fun run => (run.isOver, run.state.paused)) =
      some (true, false) := by
  refine ⟨rfl, fun h => ?_, rfl, rfl⟩
  exact absurd (congrArg (List.map (·.happening.name)) h) (by decide +kernel)

end Workflow
