import Workflow.Bus.Exchange
import Workflow.Proofs.Origins

/- Subscribers that act on runs while they are called. What such an act announces goes to all
   subscribers before the call in which it happens is over, and so to the later subscribers before
   they hear of the event that the call is about. A step of a meeting keeps three things: what has
   happened is a course of the runner, and announced (`Recorded.step`); every subscriber has heard
   of every event once, or has yet to (`Attended.step`); and two of them hear of the events of a
   kind in one order as long as nobody between them reacts to one (`Balanced.step`). -/
namespace Workflow

/-- The event that a signal announces. -/
def Signal.event? : Signal → Option Event
  | .event e => some e
  | .invoke _ => none

/-- What a subscriber can do to a run. -/
structure Call where
  /-- The id of the run, if it is not just the current one. -/
  target : Option String := none
  action : ControlAction
  deriving DecidableEq, Repr, Inhabited

/-- The call as an act on a runner. -/
def Call.act (c : Call) : Act :=
  match c.target with
  | some id => .control id c.action
  | none => .controlCurrent c.action

/-- A subscriber, by its number, and the event that it is called for. -/
abbrev Hearing := Nat × Event

/-- Work that is done around a bus whose subscribers react. -/
inductive Duty where
  /-- An act on the runner that is none of a subscriber. -/
  | act (a : Act)
  /-- A subscriber that was called goes on. -/
  | goOn (hearing : Hearing)

/-- What there is for subscribers to know: the runner and all that has happened. -/
structure Audience where
  runner : Runner
  /-- What was done with the runner, in order. -/
  acts : List Act := []
  /-- The events that were announced, in order, each with the hearing in which a subscriber caused
  it, if one did. -/
  announced : List (Option Hearing × Event) := []
  heard : List Hearing := []
  deriving Inhabited

/-- What a subscriber does next while it is called, given all that there is to know. It returns when
it does nothing. -/
abbrev Conduct := Audience → Hearing → Option Call

namespace Audience

/-- The events that were announced, in order. -/
def events (m : Audience) : List Event := m.announced.map (·.2)

/-- What a subscriber has heard of, in order. -/
def heardBy (m : Audience) (k : Nat) : List Event :=
  m.heard.filterMap fun h => if h.1 = k then some h.2 else none

/-- An act done, by nobody or in a hearing, and what is to be announced then. -/
def perform (m : Audience) (cause : Option Hearing) (a : Act) :
    Audience × List (BusAction Unit Event Duty) :=
  let (runner, signals) := m.runner.perform a
  let events := signals.filterMap Signal.event?
  ({ m with
      runner
      acts := m.acts ++ [a]
      announced := m.announced ++ events.map (cause, ·) }, events.map .emit)

end Audience

/-- What subscribers do that react by a conduct. -/
def reacting (conduct : Conduct) : BusRules Unit Event Duty Audience where
  hear m k _ e := ({ m with heard := m.heard ++ [(k, e)] }, [.work (.goOn (k, e))])
  work m duty :=
    match duty with
    | .act a => m.perform none a
    | .goOn hearing =>
      match conduct m hearing with
      | none => (m, [])
      | some call =>
        let (m, actions) := m.perform (some hearing) call.act
        (m, actions ++ [.work (.goOn hearing)])

/-- A bus with an audience. -/
abbrev Meeting := Exchange Unit Event Duty Audience

/-- Something to be done at a meeting. -/
abbrev Item := BusTask Unit Event Duty

/-- The beginning of a meeting: so many have subscribed, nothing has been done with the runner, and
acts wait, each until all that comes of those before it is done. -/
def Meeting.opening (subscribers : Nat) (r : Runner) (acts : List Act) : Meeting where
  bus := (List.replicate subscribers ()).foldl Bus.subscribe {}
  memory := { runner := r }
  agenda := acts.map fun a => .act (.work (.act a))

/-! ## Steps of a meeting -/

/-- An act shows one thing at most. -/
theorem Runner.perform_shows (r : Runner) (a : Act) :
    (r.perform a).2 = [] ∨ ∃ signal, (r.perform a).2 = [signal] := by
  cases a with
  | begin id p options =>
    rcases r.perform_begin id p options with ⟨-, -, -, -, hshown⟩ | ⟨-, hnothing⟩
    · exact .inr ⟨_, hshown⟩
    · exact .inl (by rw [hnothing])
  | advance id trace =>
    cases hnext : r.advance? id trace with
    | none => exact .inl (by simp [perform, hnext])
    | some next => exact .inr ⟨next.2, by simp [perform, hnext]⟩
  | answer id outcome => exact .inl rfl
  | control id action =>
    simp only [perform]
    cases (r.control id action).2.2 with
    | none => exact .inl rfl
    | some e => exact .inr ⟨.event e, rfl⟩
  | controlCurrent action =>
    simp only [perform]
    cases (r.controlCurrent action).2.2 with
    | none => exact .inl rfl
    | some e => exact .inr ⟨.event e, rfl⟩
  | register registration => exact .inl rfl

/-- What an invariant of the steps is after any number of them. -/
theorem Exchange.settle_keeps {σ ε α μ : Type} {rules : BusRules σ ε α μ}
    {P : Exchange σ ε α μ → Prop} (hstep : ∀ x, P x → P (x.step rules))
    {x : Exchange σ ε α μ} (h : P x) (fuel : Nat) : P (settle rules fuel x) := by
  induction fuel generalizing x with
  | zero => exact h
  | succ fuel ih =>
    unfold settle
    split
    · exact h
    · exact ih (hstep x h)

/-- Whether an item leaves the subscribers as they are. -/
def BusTask.Plain {σ ε α : Type} : BusTask σ ε α → Prop
  | .act (.subscribe _) | .act (.unsubscribe _) => False
  | _ => True

/-- The calls of some subscribers for an event. -/
def callsFor (emission first count : Nat) (e : Event) : List Item :=
  (List.range' first count).map fun k => .call emission k () e

namespace Audience

variable (m : Audience) (cause : Option Hearing) (a : Act)

/-- An act announces one event at most. -/
theorem perform_announces :
    (m.perform cause a).1.heard = m.heard ∧
    ((m.perform cause a).2 = [] ∧ (m.perform cause a).1.announced = m.announced ∨
      ∃ e, (m.perform cause a).2 = [.emit e] ∧
        (m.perform cause a).1.announced = m.announced ++ [(cause, e)]) := by
  have hone : (m.runner.perform a).2.filterMap Signal.event? = [] ∨
      ∃ e, (m.runner.perform a).2.filterMap Signal.event? = [e] := by
    rcases m.runner.perform_shows a with hnothing | ⟨signal, hshown⟩
    · exact .inl (by rw [hnothing]; rfl)
    · rw [hshown]
      cases signal with
      | event e => exact .inr ⟨e, rfl⟩
      | invoke i => exact .inl rfl
  refine ⟨rfl, ?_⟩
  unfold perform
  rcases hone with hnone | ⟨e, hsome⟩
  · exact .inl (by simp [hnone])
  · exact .inr ⟨e, by simp [hsome]⟩

end Audience

namespace Meeting

/-- Whether so many have subscribed, and nobody is about to come or to go. -/
structure Held (n : Nat) (x : Meeting) : Prop where
  subscribers : x.bus.subscribers = (List.range' 0 n).map (·, ())
  plain : ∀ item ∈ x.agenda, item.Plain

/-- What a step of a meeting can be. -/
inductive Stepped (n : Nat) (x : Meeting) : Meeting → Prop where
  | settled (next : x.agenda = []) : Stepped n x x
  /-- A subscriber is called. -/
  | called {emission k : Nat} {e : Event} {rest : List Item}
      (next : x.agenda = .call emission k () e :: rest) :
      Stepped n x { x with
        memory := { x.memory with heard := x.memory.heard ++ [(k, e)] }
        agenda := .act (.work (.goOn (k, e))) :: rest }
  /-- The subscribers are to be called for an event. -/
  | announced {e : Event} {rest : List Item} (next : x.agenda = .act (.emit e) :: rest) :
      Stepped n x { x with
        agenda := callsFor x.emissions 0 n e ++ rest
        emissions := x.emissions + 1 }
  /-- An act is done that is none of a subscriber. -/
  | acted {a : Act} {rest : List Item} (next : x.agenda = .act (.work (.act a)) :: rest) :
      Stepped n x { x with
        memory := (x.memory.perform none a).1
        agenda := (x.memory.perform none a).2.map .act ++ rest }
  /-- A subscriber that is called acts. -/
  | reacted {h : Hearing} {a : Act} {rest : List Item}
      (next : x.agenda = .act (.work (.goOn h)) :: rest) :
      Stepped n x { x with
        memory := (x.memory.perform (some h) a).1
        agenda := (x.memory.perform (some h) a).2.map .act ++ x.agenda }
  /-- A subscriber returns from a call. -/
  | returned {h : Hearing} {rest : List Item} (next : x.agenda = .act (.work (.goOn h)) :: rest) :
      Stepped n x { x with agenda := rest }

variable {n : Nat} {x x' : Meeting}

theorem stepped (h : x.Held n) (conduct : Conduct) : Stepped n x (x.step (reacting conduct)) := by
  obtain ⟨hsubscribers, hplain⟩ := h
  unfold Exchange.step
  split
  · rename_i hnext
    exact .settled hnext
  · rename_i hnext
    exact .called hnext
  · rename_i hnext
    exact absurd (hplain _ (hnext ▸ List.mem_cons_self)) id
  · rename_i hnext
    exact absurd (hplain _ (hnext ▸ List.mem_cons_self)) id
  · rename_i e rest hnext
    rw [hsubscribers, List.map_map]
    exact .announced hnext
  · rename_i duty rest hnext
    cases duty with
    | act a => exact .acted hnext
    | goOn hearing =>
      simp only [reacting]
      cases conduct x.memory hearing with
      | none => exact .returned hnext
      | some call =>
        have hstep := Stepped.reacted (n := n) (a := call.act) hnext
        rw [hnext] at hstep
        simpa using hstep

/-! ## Who hears of what -/

end Meeting

/-- The event that a subscriber is about to hear of by an item: a call for it, or an announcement
that comes to all. -/
def hears? (k : Nat) : Item → Option Event
  | .call _ i _ e => if i = k then some e else none
  | .act (.emit e) => some e
  | _ => none

/-- What a subscriber has yet to hear of, if nobody reacts any more. -/
def toHear (k : Nat) (agenda : List Item) : List Event := agenda.filterMap (hears? k)

/-- What one who follows the events has heard of: a subscriber, or one who is there when they are
announced. -/
def Audience.told (m : Audience) : Option Nat → List Event
  | none => m.events
  | some k => m.heardBy k

/-- What one who follows the events has yet to hear of. -/
def owed : Option Nat → List Item → List Event
  | none, _ => []
  | some k, agenda => toHear k agenda

theorem toHear_append (k : Nat) (first later : List Item) :
    toHear k (first ++ later) = toHear k first ++ toHear k later :=
  List.filterMap_append

theorem toHear_call (k emission i : Nat) (e : Event) (rest : List Item) :
    toHear k (.call emission i () e :: rest) = (if i = k then [e] else []) ++ toHear k rest := by
  simp only [toHear, List.filterMap_cons, hears?]
  by_cases hk : i = k <;> simp [hk]

theorem toHear_callsFor (k emission first count : Nat) (e : Event) :
    toHear k (callsFor emission first count e) =
      if first ≤ k ∧ k < first + count then [e] else [] := by
  induction count generalizing first with
  | zero =>
    rw [if_neg (by omega)]
    rfl
  | succ count ih =>
    have hcons : toHear k (callsFor emission first (count + 1) e) =
        (if first = k then [e] else []) ++ toHear k (callsFor emission (first + 1) count e) :=
      toHear_call k emission first e _
    rw [hcons, ih]
    by_cases hk : first = k
    · rw [if_pos hk, if_neg (by omega), if_pos (by omega)]
      rfl
    · rw [if_neg hk, List.nil_append]
      by_cases hlater : first + 1 ≤ k ∧ k < first + 1 + count
      · rw [if_pos hlater, if_pos (by omega)]
      · rw [if_neg hlater, if_neg (by omega)]

theorem Audience.heardBy_append (m : Audience) (h : Hearing) (k : Nat) :
    { m with heard := m.heard ++ [h] }.heardBy k =
      m.heardBy k ++ if h.1 = k then [h.2] else [] := by
  simp only [heardBy, List.filterMap_append]
  by_cases hk : h.1 = k <;> simp [hk]

namespace Meeting

variable {n : Nat} {x x' : Meeting}

/-- Whether a meeting has come from a runner by a course that shows the events announced. -/
def Recorded (r : Runner) (x : Meeting) : Prop :=
  x.memory.runner = (r.course x.memory.acts).1 ∧
    x.memory.events = (r.course x.memory.acts).2.filterMap Signal.event?

/-- Whether every subscriber has heard of every event once, or is about to. -/
def Attended (n : Nat) (x : Meeting) : Prop :=
  ∀ k, k < n → (x.memory.heardBy k ++ toHear k x.agenda).Perm x.memory.events

/-- Whether a subscriber has a place behind one who follows the events, if not before another
subscriber. -/
def Between (follower : Option Nat) (k i : Nat) : Prop := (∀ j, follower = some j → j ≤ i) ∧ i < k

/-- Whether nobody between the two has announced anything when it heard of an event of a kind. -/
def Quiet (follower : Option Nat) (k : Nat) (kind : Event → Bool) (m : Audience) : Prop :=
  ∀ i cause e, (some (i, cause), e) ∈ m.announced → kind cause = true → ¬ Between follower k i

/-- Whether an item can lead to an announcement, unless somebody between the two reacts to an event
of the kind. -/
def Item.Leads (follower : Option Nat) (k : Nat) (kind : Event → Bool) : Item → Prop
  | .call _ i _ e => ¬ (Between follower k i ∧ kind e = true)
  | .act (.work (.goOn h)) => ¬ (Between follower k h.1 ∧ kind h.2 = true)
  | _ => True

/-- Whether at all places of an agenda from which an announcement can come, the two still have to
hear of the same events of the kind. -/
inductive Level (follower : Option Nat) (k : Nat) (kind : Event → Bool) : List Item → Prop where
  | nil : Level follower k kind []
  | cons {item : Item} {rest : List Item}
      (same : Item.Leads follower k kind item →
        (owed follower rest).filter kind = (toHear k rest).filter kind)
      (later : Level follower k kind rest) : Level follower k kind (item :: rest)

/-- Whether two hear of the events of a kind in one order, unless somebody between them reacts. -/
structure Balanced (follower : Option Nat) (k : Nat) (kind : Event → Bool) (x : Meeting) : Prop where
  level : Level follower k kind x.agenda
  even : (x.memory.told follower ++ owed follower x.agenda).filter kind =
    (x.memory.heardBy k ++ toHear k x.agenda).filter kind

/-! ### Steps -/

theorem Held.step (h : x.Held n) (hx : Stepped n x x') : x'.Held n := by
  obtain ⟨hsubscribers, hplain⟩ := h
  have hemits : ∀ (m : Audience) (cause : Option Hearing) (a : Act),
      ∀ item ∈ (m.perform cause a).2.map BusTask.act, item.Plain := by
    intro m cause a item hitem
    obtain ⟨action, haction, rfl⟩ := List.mem_map.mp hitem
    obtain ⟨e, -, rfl⟩ := List.mem_map.mp haction
    exact trivial
  refine ⟨?_, ?_⟩
  · cases hx <;> exact hsubscribers
  · cases hx with
    | settled next => exact hplain
    | called next =>
      rw [next] at hplain
      exact List.forall_mem_cons.mpr ⟨trivial, (List.forall_mem_cons.mp hplain).2⟩
    | announced next =>
      rw [next] at hplain
      refine List.forall_mem_append.mpr ⟨?_, (List.forall_mem_cons.mp hplain).2⟩
      intro item hitem
      obtain ⟨k, -, rfl⟩ := List.mem_map.mp hitem
      exact trivial
    | acted next =>
      rw [next] at hplain
      exact List.forall_mem_append.mpr ⟨hemits _ _ _, (List.forall_mem_cons.mp hplain).2⟩
    | reacted next => exact List.forall_mem_append.mpr ⟨hemits _ _ _, hplain⟩
    | returned next =>
      rw [next] at hplain
      exact (List.forall_mem_cons.mp hplain).2

theorem Recorded.step {r : Runner} (h : x.Recorded r) (hx : Stepped n x x') : x'.Recorded r := by
  have hperform : ∀ (cause : Option Hearing) (a : Act),
      (x.memory.perform cause a).1.runner =
          (r.course (x.memory.perform cause a).1.acts).1 ∧
        (x.memory.perform cause a).1.events =
          (r.course (x.memory.perform cause a).1.acts).2.filterMap Signal.event? := by
    intro cause a
    obtain ⟨hrunner, hevents⟩ := h
    simp only [Audience.perform, Audience.events, r.course_append, ← hrunner, List.map_append,
      List.filterMap_append, List.map_map, Function.comp_def, List.map_id']
    rw [← hevents]
    simp [Runner.course, Audience.events]
  cases hx with
  | settled | called | announced | returned => exact h
  | acted | reacted => exact hperform _ _

theorem Attended.step (h : x.Attended n) (hx : Stepped n x x') : x'.Attended n := by
  intro k hk
  have hbefore := h k hk
  -- an act adds what it announces to what is to be heard of
  have hperform : ∀ (cause : Option Hearing) (a : Act) (later : List Item),
      (x.memory.heardBy k ++ toHear k later).Perm x.memory.events →
        ((x.memory.perform cause a).1.heardBy k ++
          toHear k ((x.memory.perform cause a).2.map .act ++ later)).Perm
            (x.memory.perform cause a).1.events := by
    intro cause a later hlater
    obtain ⟨hheard, hannounces⟩ := x.memory.perform_announces cause a
    rw [Audience.heardBy, hheard, ← Audience.heardBy, Audience.events]
    rcases hannounces with ⟨hactions, hannounced⟩ | ⟨e, hactions, hannounced⟩
    · rw [hactions, hannounced]
      exact hlater
    · rw [hactions, hannounced, List.map_append, ← Audience.events]
      exact List.perm_middle.trans ((hlater.cons e).trans (List.perm_append_singleton e _).symm)
  cases hx with
  | settled next => exact hbefore
  | called next =>
    rw [next, toHear_call, ← List.append_assoc] at hbefore
    rw [Audience.heardBy_append]
    exact hbefore
  | announced next =>
    rw [next] at hbefore
    rw [toHear_append, toHear_callsFor, if_pos (by omega)]
    exact hbefore
  | acted next =>
    rw [next] at hbefore
    exact hperform none _ _ hbefore
  | reacted next => exact hperform _ _ _ hbefore
  | returned next =>
    rw [next] at hbefore
    exact hbefore

section Balanced

variable {follower : Option Nat} {k : Nat} {kind : Event → Bool}

theorem owed_append (follower : Option Nat) (first later : List Item) :
    owed follower (first ++ later) = owed follower first ++ owed follower later := by
  cases follower with
  | none => rfl
  | some j => exact toHear_append j first later

/-- A subscriber is called, and what it has heard of now it has yet to hear of no more. -/
theorem told_called (follower : Option Nat) (m : Audience) (i emission : Nat) (e : Event)
    (rest : List Item) :
    { m with heard := m.heard ++ [(i, e)] }.told follower ++
        owed follower (.act (.work (.goOn (i, e))) :: rest) =
      m.told follower ++ owed follower (.call emission i () e :: rest) := by
  cases follower with
  | none => rfl
  | some j =>
    show { m with heard := m.heard ++ [(i, e)] }.heardBy j ++ toHear j rest =
      m.heardBy j ++ toHear j (.call emission i () e :: rest)
    rw [m.heardBy_append, toHear_call, List.append_assoc]

/-- An event is announced, and all have yet to hear of it, before all else, or have heard. -/
theorem told_announced (follower : Option Nat) (m : Audience) (cause : Option Hearing) (a : Act)
    {e : Event} (later : List Item)
    (he : (m.perform cause a).1.announced = m.announced ++ [(cause, e)]) :
    (m.perform cause a).1.told follower ++ owed follower (.act (.emit e) :: later) =
      m.told follower ++ ([e] ++ owed follower later) := by
  cases follower with
  | none =>
    show (m.perform cause a).1.announced.map (·.2) ++ [] = m.events ++ ([e] ++ [])
    rw [he, List.map_append, List.append_nil]
    rfl
  | some j =>
    show (m.perform cause a).1.heardBy j ++ e :: toHear j later =
      m.heardBy j ++ ([e] ++ toHear j later)
    rw [Audience.heardBy, (m.perform_announces cause a).1]
    rfl

/-- Of the calls for an event, one after the other: whoever is not between the two is called when
both of them have heard of it, or neither has. -/
theorem level_callsFor (hfollower : ∀ j, follower = some j → j < k) (emission first count : Nat)
    (hk : k < first + count) (e : Event) {rest : List Item} (hlevel : Level follower k kind rest)
    (hsame : (owed follower rest).filter kind = (toHear k rest).filter kind) :
    Level follower k kind (callsFor emission first count e ++ rest) := by
  induction count generalizing first with
  | zero => exact hlevel
  | succ count ih =>
    refine .cons (fun hleads => ?_) (ih (first + 1) (by omega))
    show (owed follower (callsFor emission (first + 1) count e ++ rest)).filter kind =
      (toHear k (callsFor emission (first + 1) count e ++ rest)).filter kind
    rw [owed_append, toHear_append, List.filter_append, List.filter_append, hsame]
    congr 1
    by_cases hkind : kind e = true
    · have hbetween : ¬ Between follower k first := fun h => hleads ⟨h, hkind⟩
      cases follower with
      | none =>
        have hfirst : ¬ first < k := fun h => hbetween ⟨by simp, h⟩
        rw [toHear_callsFor, if_neg (by omega)]
        rfl
      | some j =>
        have hj := hfollower j rfl
        have hfirst : ¬ (j ≤ first ∧ first < k) := fun ⟨hle, hlt⟩ =>
          hbetween ⟨fun j' hj' => Option.some.inj hj' ▸ hle, hlt⟩
        have hboth : (first + 1 ≤ j ∧ j < first + 1 + count) ↔
            (first + 1 ≤ k ∧ k < first + 1 + count) := by omega
        show (toHear j _).filter kind = _
        simp only [toHear_callsFor, hboth]
    · -- no event of the kind is heard of in these calls
      have hnone : ∀ i, (toHear i (callsFor emission (first + 1) count e)).filter kind = [] := by
        intro i
        rw [toHear_callsFor]
        split <;> simp [hkind]
      cases follower with
      | none => exact (hnone k).symm
      | some j => exact (hnone j).trans (hnone k).symm

/-- An act is done at a place from which an announcement can come. -/
theorem Balanced.performed {cause : Option Hearing} {a : Act} {later : List Item}
    (hlevel : Level follower k kind later)
    (heven : (x.memory.told follower ++ owed follower later).filter kind =
      (x.memory.heardBy k ++ toHear k later).filter kind)
    (hsame : ∀ e, (cause, e) ∈ (x.memory.perform cause a).1.announced →
      (owed follower later).filter kind = (toHear k later).filter kind) :
    Balanced follower k kind { x with
      memory := (x.memory.perform cause a).1
      agenda := (x.memory.perform cause a).2.map .act ++ later } := by
  obtain ⟨hheard, ⟨hactions, hannounced⟩ | ⟨e, hactions, hannounced⟩⟩ :=
    x.memory.perform_announces cause a
  · have htold : (x.memory.perform cause a).1.told follower = x.memory.told follower := by
      cases follower with
      | none => exact congrArg (List.map (·.2)) hannounced
      | some j => rw [Audience.told, Audience.heardBy, hheard]; rfl
    have hheardBy : (x.memory.perform cause a).1.heardBy k = x.memory.heardBy k := by
      rw [Audience.heardBy, hheard]
      rfl
    rw [hactions]
    refine ⟨hlevel, ?_⟩
    show (_ ++ owed follower later).filter kind = (_ ++ toHear k later).filter kind
    rw [htold, hheardBy]
    exact heven
  · have hlater := hsame e (by rw [hannounced]; simp)
    rw [List.filter_append, List.filter_append, hlater] at heven
    rw [hactions]
    refine ⟨.cons (fun _ => hlater) hlevel, ?_⟩
    have hfollower := told_announced follower x.memory cause a later hannounced
    have hk := told_announced (some k) x.memory cause a later hannounced
    show (_ ++ owed follower (.act (.emit e) :: later)).filter kind =
      (Audience.told _ (some k) ++ owed (some k) (.act (.emit e) :: later)).filter kind
    rw [hfollower, hk]
    simp only [List.filter_append]
    rw [List.append_cancel_right heven, hlater]
    rfl

theorem Balanced.step (hb : Balanced follower k kind x) (hx : Stepped n x x') (hk : k < n)
    (hfollower : ∀ j, follower = some j → j < k) (hquiet : Quiet follower k kind x'.memory) :
    Balanced follower k kind x' := by
  obtain ⟨hlevel, heven⟩ := hb
  cases hx with
  | settled next => exact ⟨hlevel, heven⟩
  | @called emission i e rest next =>
    rw [next] at hlevel heven
    obtain _ | ⟨hsame, hlater⟩ := hlevel
    refine ⟨.cons hsame hlater, ?_⟩
    show (_ ++ owed follower _).filter kind = (Audience.told _ (some k) ++ owed (some k) _).filter kind
    rw [told_called follower x.memory i emission e rest,
      told_called (some k) x.memory i emission e rest]
    exact heven
  | @announced e rest next =>
    rw [next] at hlevel heven
    obtain _ | ⟨hsame, hlater⟩ := hlevel
    refine ⟨level_callsFor hfollower _ 0 n (by omega) _ hlater (hsame trivial), ?_⟩
    have hcalled : ∀ i, i < n → toHear i (callsFor x.emissions 0 n e ++ rest) =
        toHear i (.act (.emit e) :: rest) := by
      intro i hi
      rw [toHear_append, toHear_callsFor, if_pos (by omega)]
      rfl
    have howed : owed follower (callsFor x.emissions 0 n e ++ rest) =
        owed follower (.act (.emit e) :: rest) := by
      cases follower with
      | none => rfl
      | some j => exact hcalled j (Nat.lt_trans (hfollower j rfl) hk)
    show (_ ++ owed follower _).filter kind = (_ ++ toHear k _).filter kind
    rw [howed, hcalled k hk]
    exact heven
  | acted next =>
    rw [next] at hlevel heven
    obtain _ | ⟨hsame, hlater⟩ := hlevel
    refine .performed hlater ?_ fun _ _ => hsame trivial
    cases follower <;> exact heven
  | @reacted h a rest next =>
    refine .performed hlevel heven fun e he => ?_
    rw [next] at hlevel ⊢
    obtain _ | ⟨hsame, -⟩ := hlevel
    have hrest := hsame fun ⟨hbetween, hkind⟩ => hquiet h.1 h.2 e he hkind hbetween
    cases follower <;> exact hrest
  | returned next =>
    rw [next] at hlevel heven
    obtain _ | ⟨-, hlater⟩ := hlevel
    refine ⟨hlater, ?_⟩
    cases follower <;> exact heven

end Balanced

end Meeting

end Workflow
