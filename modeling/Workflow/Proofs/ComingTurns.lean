import Workflow.Proofs.KeptHandles
import Workflow.Proofs.RehearsedRuns

/- The turns that a rehearsal is still to take. They stand on the agenda, are ready or sleep until
   their time, and each thing that is done takes at most one of them and puts others behind the
   rest (`Stage.Adds`). The bus, the listeners and the handlers put no errands anywhere: what is
   done is aside from those who ask for runs (`Stage.Aside`), is an errand of theirs, or is what
   they do when a run is over (`Stage.perform_cases`). Meanwhile runs go on: an end stays what it
   is, and a run ends only by a move after which it has one more turn (`Runner.GoneOn`). -/
namespace Workflow

/-! ## Runs that go on -/

namespace Runner

/-- Whether a runner has come of another one by moves of runs that it has: they are all there with
their documents, an end stays what it is, and among the runs only these may have ended since. -/
structure GoneOn (r r' : Runner) (moved : String → Prop) : Prop where
  pipeline : ∀ {id run}, Table.get? r.runs id = some run →
    ∃ run', Table.get? r'.runs id = some run' ∧ run'.pipeline = run.pipeline
  result : ∀ {id result}, r.result? id = some result → r'.result? id = some result
  ends : ∀ {id}, (r'.result? id).isSome = true → (r.result? id).isSome = true ∨ moved id

theorem GoneOn.refl (r : Runner) (moved : String → Prop) : r.GoneOn r moved where
  pipeline h := ⟨_, h, rfl⟩
  result h := h
  ends h := .inl h

/-- A run that is over stays as it has ended. -/
theorem phase_of_isOver {run : Run} (h : run.isOver = true) (m : Move) :
    (run.move m).1.phase = run.phase := by
  cases m with
  | advance around => rw [Run.move, Run.advance?_of_isOver h]
  | answer outcome => rw [Run.move, Run.answer_of_isOver h]
  | act action => rw [Run.move_act]

/-- Only a move of its own ends a run. -/
theorem isOver_of_move {run : Run} {m : Move} (h : run.isOver = false)
    (hover : (run.move m).1.isOver = true) : ∃ around, m = .advance around := by
  cases m with
  | advance around => exact ⟨around, rfl⟩
  | answer outcome =>
    have hsame : (run.move (.answer outcome)).1.isOver = run.isOver := run.isOver_answer outcome
    rw [hsame, h] at hover
    cases hover
  | act action =>
    have hsame : (run.move (.act action)).1.isOver = run.isOver := by
      rw [Run.move_act]
      rfl
    rw [hsame, h] at hover
    cases hover

theorem goneOn_perform {r : Runner} (hk : r.Keyed) {a : Act}
    (ha : ∀ id p options, a ≠ .begin id p options) :
    r.GoneOn (r.perform a).1 fun id => ∃ trace, a = .advance id trace := by
  have hrun : ∀ {id run}, Table.get? r.runs id = some run →
      Table.get? (r.perform a).1.runs id = some (run.course (r.moveOf? id a).toList).1 :=
    fun hget => (perform_seen hk hget a).1
  have hknown : ∀ {id}, Table.get? r.runs id = none →
      Table.get? (r.perform a).1.runs id = none := fun hget =>
    unknown_perform hk hget fun p options _ heq => absurd heq (ha _ p options)
  constructor
  case pipeline =>
    intro id run hget
    exact ⟨_, hrun hget, (run.course_frame _).2.1⟩
  case result =>
    intro id result hresult
    cases hget : Table.get? r.runs id with
    | none => simp [result?, hget] at hresult
    | some run =>
      have hover : run.isOver = true := by
        rw [← result?_isSome_iff hget, hresult]
        rfl
      rw [result?_eq_some_iff hget] at hresult
      rw [result?_eq_some_iff (hrun hget), ← hresult]
      cases r.moveOf? id a with
      | none => rfl
      | some m => exact phase_of_isOver hover m
  case ends =>
    intro id hends
    cases hget : Table.get? r.runs id with
    | none => simp [result?, hknown hget] at hends
    | some run =>
      rw [result?_isSome_iff hget]
      rw [result?_isSome_iff (hrun hget)] at hends
      by_cases hover : run.isOver = true
      · exact .inl hover
      · right
        cases hm : r.moveOf? id a with
        | none =>
          rw [hm] at hends
          exact absurd hends hover
        | some m =>
          rw [hm, Option.toList_some, Run.course_singleton] at hends
          obtain ⟨around, rfl⟩ := isOver_of_move (Bool.eq_false_iff.mpr hover) hends
          cases a with
          | advance i trace =>
            obtain ⟨rfl, -⟩ : i = id ∧ _ := by simpa [moveOf?] using hm
            exact ⟨trace, rfl⟩
          | begin | answer | control | controlCurrent | register => simp [moveOf?] at hm

/-- A run that begins under a new id leaves the others alone, and has not ended. -/
theorem goneOn_insert {r : Runner} {id : String} {run : Run} (hnew : Table.get? r.runs id = none)
    (hopen : run.isOver = false) (active : List String) (current : Option String) :
    r.GoneOn { r with runs := Table.insert id run r.runs, active, current } fun _ => False := by
  have hother : ∀ {i}, i ≠ id → Table.get? (Table.insert id run r.runs) i = Table.get? r.runs i :=
    fun hi => by rw [Table.get?_insert, if_neg (Ne.symm hi)]
  constructor
  case pipeline =>
    intro i old hget
    have hi : i ≠ id := by
      rintro rfl
      rw [hnew] at hget
      cases hget
    exact ⟨old, (hother hi).trans hget, rfl⟩
  case result =>
    intro i result hresult
    have hi : i ≠ id := by
      rintro rfl
      simp [result?, hnew] at hresult
    unfold result? at hresult ⊢
    rwa [hother hi]
  case ends =>
    intro i hends
    left
    by_cases hi : i = id
    · subst hi
      have hrun : Table.get? (Table.insert i run r.runs) i = some run := by
        rw [Table.get?_insert, if_pos rfl]
      rw [result?_isSome_iff hrun, hopen] at hends
      cases hends
    · unfold result? at hends ⊢
      rwa [hother hi] at hends

end Runner

namespace Rehearsal

variable {ω τ : Type}

/-! ## Turns to come -/

/-- The turn that an action is to take. -/
def turnOf? : StageAction τ → Option (Turn τ)
  | .work (.turn t) => some t
  | _ => none

/-- The turns that actions are to take, in order. -/
def turnsOf (actions : List (StageAction τ)) : List (Turn τ) := actions.filterMap turnOf?

/-- The turn that an entry of an agenda is to take. -/
def taskTurn? : BusTask Unit Event (Deed τ) → Option (Turn τ)
  | .call .. => none
  | .act action => turnOf? action

/-- The turns that are due: those of the agenda and behind them those that are ready. -/
def Play.due (p : Play ω τ) : List (Turn τ) := p.agenda.filterMap taskTurn? ++ p.memory.ready

/-- The turns that are to come, now or at a later time. -/
def Play.coming (p : Play ω τ) : List (Turn τ) := p.due ++ p.memory.sleeping.map (·.2)

theorem turns_acts (actions : List (StageAction τ)) :
    (actions.map (BusTask.act (σ := Unit) (ε := Event))).filterMap taskTurn? = turnsOf actions := by
  rw [List.filterMap_map]
  rfl

/-- Whether a stage has come of another one such that these actions are to be done next: all turns
that were put off are there, and those that are new are of a kind. -/
structure Stage.Adds (kind : Turn τ → Prop) (s s' : Stage ω τ) (actions : List (StageAction τ)) :
    Prop where
  ready : ∃ more, s'.ready = s.ready ++ more ∧ ∀ t ∈ more, kind t
  sleeping : ∃ later, s'.sleeping = s.sleeping ++ later ∧ ∀ t ∈ later, kind t.2
  next : ∀ t ∈ turnsOf actions, kind t

namespace Stage

variable {kind : Turn τ → Prop} {s s' : Stage ω τ} {actions : List (StageAction τ)}

/-- Turns become ready, and none is put off. -/
theorem Adds.readied {more : List (Turn τ)} (hready : s'.ready = s.ready ++ more)
    (hsleeping : s'.sleeping = s.sleeping) (hmore : ∀ t ∈ more, kind t)
    (hnext : ∀ t ∈ turnsOf actions, kind t) : Adds kind s s' actions where
  ready := ⟨more, hready, hmore⟩
  sleeping := ⟨[], hsleeping.trans (List.append_nil _).symm, List.forall_mem_nil _⟩
  next := hnext

/-- A turn is put off. -/
theorem Adds.slept {later : Nat × Turn τ} (hready : s'.ready = s.ready)
    (hsleeping : s'.sleeping = s.sleeping ++ [later]) (hlater : kind later.2)
    (hnext : ∀ t ∈ turnsOf actions, kind t) : Adds kind s s' actions where
  ready := ⟨[], hready.trans (List.append_nil _).symm, List.forall_mem_nil _⟩
  sleeping := ⟨[later], hsleeping, List.forall_mem_singleton.mpr hlater⟩
  next := hnext

/-- Nothing becomes ready or is put off. -/
theorem Adds.same (hready : s'.ready = s.ready) (hsleeping : s'.sleeping = s.sleeping)
    (hnext : ∀ t ∈ turnsOf actions, kind t) : Adds kind s s' actions :=
  .readied (hready.trans (List.append_nil _).symm) hsleeping (List.forall_mem_nil _) hnext

theorem Adds.mono {other : Turn τ → Prop} (h : Adds kind s s' actions)
    (hkind : ∀ t, kind t → other t) : Adds other s s' actions where
  ready := h.ready.imp fun _ ⟨heq, hmore⟩ => ⟨heq, fun t ht => hkind t (hmore t ht)⟩
  sleeping := h.sleeping.imp fun _ ⟨heq, hlater⟩ => ⟨heq, fun t ht => hkind t.2 (hlater t ht)⟩
  next t ht := hkind t (h.next t ht)

/-- One after the other. -/
theorem Adds.trans {s'' : Stage ω τ} (h : Adds kind s s' []) (h' : Adds kind s' s'' actions) :
    Adds kind s s'' actions := by
  obtain ⟨more, hready, hmore⟩ := h.ready
  obtain ⟨more', hready', hmore'⟩ := h'.ready
  obtain ⟨later, hsleeping, hlater⟩ := h.sleeping
  obtain ⟨later', hsleeping', hlater'⟩ := h'.sleeping
  constructor
  case ready =>
    refine ⟨more ++ more', by rw [hready', hready, List.append_assoc], fun t ht => ?_⟩
    rcases List.mem_append.mp ht with ht | ht
    · exact hmore t ht
    · exact hmore' t ht
  case sleeping =>
    refine ⟨later ++ later', by rw [hsleeping', hsleeping, List.append_assoc], fun t ht => ?_⟩
    rcases List.mem_append.mp ht with ht | ht
    · exact hlater t ht
    · exact hlater' t ht
  case next => exact h'.next

end Stage

/-- Whether a turn is none of those who ask for runs. -/
def Turn.Plain : Turn τ → Prop
  | .errand _ => False
  | .advance _ | .answer _ _ => True

namespace Stage

theorem hear_adds (s : Stage ω τ) (listener : Nat) (e : Event) :
    Adds Turn.Plain s (s.hear listener e).1 (s.hear listener e).2 := by
  unfold hear
  dsimp only
  split
  · exact .same rfl rfl (List.forall_mem_nil _)
  · split
    · exact .same rfl rfl (List.forall_mem_nil _)
    · exact .same rfl rfl (List.forall_mem_nil _)

theorem control_adds (s : Stage ω τ) (target : Option Nat) (action : ControlAction) :
    Adds Turn.Plain s (s.control target action).1 (s.control target action).2 := by
  have hdone : ∀ (s' : Stage ω τ) (changed : Option String) (result : Option Bool)
      (event : Option Event), s'.ready = s.ready → s'.sleeping = s.sleeping →
        Adds Turn.Plain s (control.done target action s' changed result event).1
          (control.done target action s' changed result event).2 := by
    intro s' changed result event hready hsleeping
    have hnext : ∀ t ∈ turnsOf (control.done target action s' changed result event).2,
        Turn.Plain t := by
      unfold control.done turnsOf
      cases event <;> exact List.forall_mem_nil _
    cases changed with
    | none => exact .same hready hsleeping hnext
    | some id =>
      unfold control.done wake
      dsimp only [Option.elim]
      split
      · have hmore : s'.ready ++ [.advance id] = s.ready ++ [.advance id] := by rw [hready]
        exact .readied hmore hsleeping (by simp [Turn.Plain]) hnext
      · exact .same hready hsleeping hnext
  unfold control
  cases target with
  | none => exact hdone _ _ _ _ rfl rfl
  | some number =>
    dsimp only
    split
    · exact hdone _ _ _ _ rfl rfl
    · exact hdone _ _ _ _ rfl rfl

theorem invoke_adds (s : Stage ω τ) (i : Invocation) :
    Adds Turn.Plain s (s.invoke i).1 (s.invoke i).2 := by
  unfold invoke
  dsimp only
  split
  · exact .same rfl rfl (List.forall_mem_nil _)
  · refine .same rfl rfl fun t ht => ?_
    -- the handler's actions are controls
    simp [turnsOf, turnOf?, List.filterMap_append, List.filterMap_map, Function.comp_def] at ht

end Stage

/-! ## What is done aside from errands -/

/-- Whether every run of a runner stands under its own id, and the ids are the first numbers. -/
structure Listed (r : Runner) : Prop where
  keyed : r.Keyed
  numbered : r.Numbered

theorem Listed.perform {r : Runner} (h : Listed r) {a : Act}
    (ha : ∀ id p options, a ≠ .begin id p options) : Listed (r.perform a).1 :=
  ⟨Runner.keyed_perform h.keyed a, h.numbered.perform h.keyed ha⟩

theorem Listed.congr {r r' : Runner} (h : Listed r) (hruns : r'.runs = r.runs) : Listed r' := by
  obtain ⟨hkeyed, hnumbered⟩ := h
  constructor
  case keyed =>
    unfold Runner.Keyed at hkeyed ⊢
    rwa [hruns]
  case numbered =>
    unfold Runner.Numbered at hnumbered ⊢
    rwa [hruns]

/-- A run that begins takes the next number. -/
theorem Listed.begin {r : Runner} (h : Listed r) {p : Pipeline} {options : RunOptions} {start : Nat}
    (hstart : p.startIndex options.start = .ok start) {r' : Runner}
    (hruns : r'.runs = Table.insert (runName r.runs.length)
      (r.newRun (runName r.runs.length) p options start) r.runs) : Listed r' := by
  have hperform : (r.perform (.begin (runName r.runs.length) p options)).1.runs = r'.runs := by
    rw [Runner.perform, h.numbered.fresh, Option.isSome_none, if_neg Bool.false_ne_true,
      Runner.begin_ok hstart, hruns]
  have hlisted : Listed (r.perform (.begin (runName r.runs.length) p options)).1 :=
    ⟨Runner.keyed_perform h.keyed _, h.numbered.perform_begin p options⟩
  exact hlisted.congr hperform.symm

/-- Whether a stage has come of another one, with a turn in hand and these actions to be done next,
such that the world of those who ask for runs is in a relation to what it was, all turns that are
new are of a kind, and no run has begun. -/
structure Stage.Aside (R : ω → ω → Prop) (kind : Turn τ → Prop) (hand : Option (Turn τ))
    (s s' : Stage ω τ) (actions : List (StageAction τ)) : Prop where
  world : R s.world s'.world
  adds : Stage.Adds kind s s' actions
  listed : Listed s'.runner
  goneOn : s.runner.GoneOn s'.runner fun id => .advance id ∈ turnsOf actions
  /-- A run that is over is not passed over. -/
  passed : ∀ id, hand = some (.advance id) → (s'.runner.result? id).isSome = true →
    .advance id ∈ turnsOf actions

namespace Stage

variable {s s' : Stage ω τ} {actions : List (StageAction τ)}

theorem Aside.mono {R R' : ω → ω → Prop} {kind kind' : Turn τ → Prop} {hand : Option (Turn τ)}
    (h : Aside R kind hand s s' actions) (hworld : ∀ u v, R u v → R' u v)
    (hkind : ∀ t, kind t → kind' t) : Aside R' kind' hand s s' actions where
  world := hworld _ _ h.world
  adds := h.adds.mono hkind
  listed := h.listed
  goneOn := h.goneOn
  passed := h.passed

/-- Nothing happens to the runs, and no turn of a run is taken. -/
theorem Aside.still {R : ω → ω → Prop} {kind : Turn τ → Prop} {hand : Option (Turn τ)}
    (hlisted : Listed s.runner) (hworld : R s.world s'.world) (hadds : Adds kind s s' actions)
    (hrunner : s'.runner = s.runner) (hhand : ∀ id, hand ≠ some (.advance id)) :
    Aside R kind hand s s' actions where
  world := hworld
  adds := hadds
  listed := hrunner ▸ hlisted
  goneOn := hrunner ▸ .refl _ _
  passed id heq := absurd heq (hhand id)

/-- Something other than a move happens to the runs. -/
theorem Aside.act {hand : Option (Turn τ)} {a : Act} (hlisted : Listed s.runner)
    (ha : ∀ id p options, a ≠ .begin id p options) (hmove : ∀ id trace, a ≠ .advance id trace)
    (hworld : s'.world = s.world) (hadds : Adds Turn.Plain s s' actions)
    (hrunner : s'.runner = (s.runner.perform a).1) (hhand : ∀ id, hand ≠ some (.advance id)) :
    Aside (fun u v => v = u) Turn.Plain hand s s' actions where
  world := hworld
  adds := hadds
  listed := hrunner ▸ hlisted.perform ha
  goneOn := by
    have hgone := Runner.goneOn_perform hlisted.keyed ha
    rw [hrunner]
    exact ⟨hgone.pipeline, hgone.result, fun hends =>
      (hgone.ends hends).imp_right fun ⟨trace, heq⟩ => absurd heq (hmove _ trace)⟩
  passed id heq := absurd heq (hhand id)

theorem hear_aside (hlisted : Listed s.runner) (listener : Nat) (e : Event) :
    Aside (fun u v => v = u) Turn.Plain none s (s.hear listener e).1 (s.hear listener e).2 := by
  refine .still hlisted (s.hear_world listener e) (s.hear_adds listener e) ?_ (by simp)
  unfold hear
  dsimp only
  split
  · rfl
  · split <;> rfl

theorem control_aside (hlisted : Listed s.runner) (target : Option Nat) (action : ControlAction) :
    Aside (fun u v => v = u) Turn.Plain none s (s.control target action).1
      (s.control target action).2 := by
  have hworld := s.control_world target action
  have hadds := s.control_adds target action
  revert hworld hadds
  unfold control
  cases target with
  | none =>
    intro hworld hadds
    exact .act (a := .controlCurrent action) hlisted (by simp) (by simp) hworld hadds
      (done_same ..).1 (by simp)
  | some number =>
    dsimp only
    intro hworld hadds
    split
    · rename_i hhandle
      rw [if_pos hhandle] at hworld hadds
      exact .act (a := .control (runName number) action) hlisted (by simp) (by simp) hworld hadds
        (done_same ..).1 (by simp)
    · rename_i hhandle
      rw [if_neg hhandle] at hworld hadds
      exact .still hlisted hworld hadds (done_same ..).1 (by simp)

/-- An answer leaves its run to be moved on. -/
theorem answer_aside (customs : Customs ω τ) (hlisted : Listed s.runner) (id : String)
    (outcome : Outcome) {hand : Option (Turn τ)} (hhand : ∀ id, hand ≠ some (.advance id)) :
    Aside (fun u v => v = u) Turn.Plain hand s (s.take customs (.answer id outcome)).1
      (s.take customs (.answer id outcome)).2 := by
  refine .act (a := .answer id outcome) hlisted (by simp) (by simp) rfl ?_ rfl hhand
  refine .same rfl rfl fun t ht => ?_
  obtain rfl : t = .advance id := by simpa [take, turnsOf, turnOf?] using ht
  trivial

/-- A run that has a move makes it, and either is to be moved on or waits for an answer. -/
theorem advance_aside (customs : Customs ω τ) (hlisted : Listed s.runner) {id : String}
    {next : Runner × Signal} (hnext : s.runner.advance? id s.trace = some next) :
    Aside (fun u v => v = u) Turn.Plain (some (.advance id)) s
      (s.take customs (.advance id)).1 (s.take customs (.advance id)).2 := by
  obtain ⟨runner, signal⟩ := next
  have hperform : (s.runner.perform (.advance id s.trace)).1 = runner := by
    simp [Runner.perform, hnext]
  have hlater := hlisted.perform (a := .advance id s.trace) (by simp)
  have hgone := Runner.goneOn_perform hlisted.keyed (a := .advance id s.trace) (by simp)
  rw [hperform] at hlater hgone
  unfold take
  simp only [hnext]
  cases signal with
  | event e =>
    have hagain : ∀ t, t ∈ turnsOf (τ := τ) [.emit e, .work (.turn (.advance id))] ↔
        t = .advance id := by
      intro t
      simp [turnsOf, turnOf?, eq_comm]
    constructor
    case world => rfl
    case adds =>
      refine .same rfl rfl fun t ht => ?_
      rw [(hagain t).mp ht]
      trivial
    case listed => exact hlater
    case goneOn =>
      refine ⟨hgone.pipeline, hgone.result, fun hends => (hgone.ends hends).imp_right ?_⟩
      intro hmoved
      obtain ⟨trace, heq⟩ := hmoved
      cases heq
      exact (hagain _).mpr rfl
    case passed =>
      intro i hi _
      cases hi
      exact (hagain _).mpr rfl
  | invoke i =>
    obtain ⟨hrunner, -⟩ := invoke_same { s with runner } i
    -- a run that waits for an answer is not over
    have hopen : (runner.result? id).isSome = false := by
      obtain ⟨run, hget⟩ : ∃ run, Table.get? s.runner.runs id = some run := by
        unfold Runner.advance? at hnext
        cases hget : Table.get? s.runner.runs id with
        | none => simp [hget] at hnext
        | some run => exact ⟨run, rfl⟩
      obtain ⟨run', hadvance, hget'⟩ := Runner.advance?_run hget hnext
      rw [← Bool.not_eq_true, Runner.result?_isSome_iff hget']
      cases hadvance with
      | invoke => exact Bool.false_ne_true
    constructor
    case world => exact invoke_world { s with runner } i
    case adds =>
      obtain ⟨hready, hsleeping, hnone⟩ := invoke_adds { s with runner } i
      exact ⟨hready, hsleeping, hnone⟩
    case listed => rwa [hrunner]
    case goneOn =>
      rw [hrunner]
      refine ⟨hgone.pipeline, hgone.result, fun hends => (hgone.ends hends).imp_right ?_⟩
      intro hmoved
      obtain ⟨trace, heq⟩ := hmoved
      cases heq
      rw [hopen] at hends
      cases hends
    case passed =>
      intro j hj hends
      cases hj
      rw [hrunner, hopen] at hends
      cases hends

/-- What the taking of a turn can be: something aside, an errand, or what is done for those who
ask for runs when one is over. -/
theorem take_cases (customs : Customs ω τ) (hlisted : Listed s.runner) (t : Turn τ) :
    (t.Plain ∧ Aside (fun u v => v = u) Turn.Plain (some t) s (s.take customs t).1
        (s.take customs t).2) ∨
      (∃ task, t = .errand task ∧ s.take customs t = customs.errand s task) ∨
      ∃ id, t = .advance id ∧ (s.runner.result? id).isSome = true ∧
        s.take customs t = customs.ended s id := by
  cases t with
  | errand task => exact .inr (.inl ⟨task, rfl, rfl⟩)
  | answer id outcome => exact .inl ⟨trivial, answer_aside customs hlisted id outcome (by simp)⟩
  | advance id =>
    cases hnext : s.runner.advance? id s.trace with
    | some next => exact .inl ⟨trivial, advance_aside customs hlisted hnext⟩
    | none =>
      have hpassed : ∀ {s' : Stage ω τ}, s'.runner = s.runner → s'.world = s.world →
          s'.ready = s.ready → s'.sleeping = s.sleeping → (s.runner.result? id).isSome = false →
          Aside (fun u v => v = u) Turn.Plain (some (.advance id)) s s' [] := by
        intro s' hrunner hworld hready hsleeping hopen
        refine ⟨hworld, .same hready hsleeping (List.forall_mem_nil _), hrunner ▸ hlisted,
          hrunner ▸ .refl _ _, fun i hi hends => ?_⟩
        cases hi
        rw [hrunner, hopen] at hends
        cases hends
      unfold take
      simp only [hnext]
      cases hget : Table.get? s.runner.runs id with
      | none =>
        exact .inl ⟨trivial, hpassed rfl rfl rfl rfl (by simp [Runner.result?, hget])⟩
      | some run =>
        dsimp only
        by_cases hover : run.isOver = true
        · right
          right
          exact ⟨id, rfl, (Runner.result?_isSome_iff hget).mpr hover, by rw [if_pos hover]⟩
        · have hopen : (s.runner.result? id).isSome = false := by
            rw [← Bool.not_eq_true, Runner.result?_isSome_iff hget]
            exact hover
          refine .inl ⟨trivial, ?_⟩
          rw [if_neg hover]
          split
          · exact hpassed rfl rfl rfl rfl hopen
          · exact hpassed rfl rfl rfl rfl hopen

/-- The turn that a deed takes. -/
def turnOfDeed? (deed : Deed τ) : Option (Turn τ) := turnOf? (.work deed)

theorem perform_cases (customs : Customs ω τ) (hlisted : Listed s.runner) (deed : Deed τ) :
    ((∀ t ∈ turnOfDeed? deed, t.Plain) ∧ Aside (fun u v => v = u) Turn.Plain (turnOfDeed? deed) s
        (s.perform customs deed).1 (s.perform customs deed).2) ∨
      (∃ task, deed = .turn (.errand task) ∧ s.perform customs deed = customs.errand s task) ∨
      ∃ id, deed = .turn (.advance id) ∧ (s.runner.result? id).isSome = true ∧
        s.perform customs deed = customs.ended s id := by
  cases deed with
  | turn t =>
    rcases take_cases customs hlisted t with ⟨hplain, h⟩ | ⟨task, rfl, h⟩ | ⟨id, rfl, hover, h⟩
    · exact .inl ⟨fun u hu => by cases hu; exact hplain, h⟩
    · exact .inr (.inl ⟨task, rfl, h⟩)
    · exact .inr (.inr ⟨id, rfl, hover, h⟩)
  | control target action =>
    exact .inl ⟨by simp [turnOfDeed?, turnOf?], control_aside hlisted target action⟩
  | note action target result =>
    refine .inl ⟨by simp [turnOfDeed?, turnOf?], ?_⟩
    exact .still hlisted rfl (.same rfl rfl (List.forall_mem_nil _)) rfl (by
      simp [turnOfDeed?, turnOf?])
  | rest id delay outcome =>
    refine .inl ⟨by simp [turnOfDeed?, turnOf?], ?_⟩
    unfold perform
    dsimp only
    split
    · exact answer_aside customs hlisted id outcome (by simp [turnOfDeed?, turnOf?])
    · refine .still hlisted rfl ?_ rfl (by simp [turnOfDeed?, turnOf?])
      exact .slept rfl rfl trivial (List.forall_mem_nil _)

end Stage

end Rehearsal

end Workflow
