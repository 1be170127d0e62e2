import Workflow.Proofs.FreshListings

/- What a shutdown leaves behind. A refresh that is under way goes on behind it: a pass that has
   not begun only clears the table, but one that has come to the listener looks no more
   whether the manager has been shut down, and binds the port that it was going to
   (`Manager.rebinding?`). Every act but a start keeps that (`Drained.perform`), and
   `remains_of_shutdown` says what there is when the refresh has come to its end. -/
namespace Workflow

/-- The port that a refresh is going to bind a listener to. -/
def RefreshPass.port? : RefreshPass → Option Nat
  | .ready | .passed => none
  | .stopping port => port
  | .binding port => some port

namespace Manager

/-- The port that the refresh under way is going to bind a listener to. -/
def rebinding? (m : Manager) : Option Nat := m.passes.head?.bind RefreshPass.port?

/-- Whether an act leaves alone what a refresh is about to do: it does not shut the manager down,
and lets a listener be bound. -/
def Act.lets : Act → Bool
  | .shutdown => false
  | .proceed _ _ bindable _ => bindable
  | _ => true

/-- What there is of a manager that has been shut down while its refresh was going to bind a
listener to this port, if to any. The listener is yet to be bound, or has been; that it has been is
sure only if every act lets it be. -/
structure Drained (sure : Prop) (port : Option Nat) (m : Manager) : Prop where
  shut : m.Shut
  unrouted : m.routes = []
  stands : ∃ s, m.Stands s
  listener : m.listener = none ∧ m.rebinding? = port ∨
    m.rebinding? = none ∧ (m.listener = port ∨ ¬ sure ∧ m.listener = none)

section Drained

variable {sure : Prop} {port : Option Nat} {m m' : Manager}

/-- Nothing but the refreshes and the listener counts. -/
theorem Drained.still (h : Drained sure port m) (shut : m'.Shut) (unrouted : m'.routes = [])
    (stands : ∃ s, m'.Stands s) (listener : m'.listener = m.listener)
    (rebinding : m'.rebinding? = m.rebinding?) : Drained sure port m' where
  shut := shut
  unrouted := unrouted
  stands := stands
  listener := by
    rw [listener, rebinding]
    exact h.listener

theorem drained_shutdown (sure : Prop) (hs : ∃ s, m.Stands s) :
    Drained sure m.rebinding? m.shutdown where
  shut := ⟨rfl, rfl⟩
  unrouted := rfl
  stands := by
    obtain ⟨s, hs⟩ := hs
    obtain ⟨t, ht, -⟩ := stands_perform hs .shutdown
    exact ⟨t, ht⟩
  listener := .inl ⟨rfl, rfl⟩

/-- One move of the refresh under way. In front of the listener it does not come to it any more, and
behind that it carries the binding out. -/
theorem Drained.proceed (h : Drained sure port m) {p : RefreshPass} (hp : m.passes = [p])
    (now : Nat) (tree : FileTree) (bindable : Bool) (hsure : sure → bindable = true) :
    let out := m.proceed now tree bindable p
    out.1.routes = [] ∧
      (out.1.listener = none ∧ out.2.bind RefreshPass.port? = port ∨
        out.2.bind RefreshPass.port? = none ∧
          (out.1.listener = port ∨ ¬ sure ∧ out.1.listener = none)) := by
  have hlistener := h.listener
  have hrebinding : m.rebinding? = p.port? := by
    rw [rebinding?, hp]
    rfl
  rw [hrebinding] at hlistener
  cases p with
  | ready =>
    have hpass : m.pass now tree = (m.clear, .passed) := if_pos h.shut.stopped
    intro out
    have hout : out = (m.clear, some .passed) := by
      show ((m.pass now tree).1, some (m.pass now tree).2) = _
      rw [hpass]
    rw [hout]
    exact ⟨rfl, hlistener⟩
  | stopping next => cases next <;> exact ⟨h.unrouted, hlistener⟩
  | binding next =>
    -- nothing is bound before the move, so this is the port
    have hport : m.listener = none ∧ some next = port := by
      rcases hlistener with hlistener | ⟨hnone, -⟩
      · exact hlistener
      · cases hnone
    cases bindable with
    | true => exact ⟨h.unrouted, .inr ⟨rfl, .inl hport.2⟩⟩
    | false =>
      have hunsure : ¬ sure := fun hs => Bool.false_ne_true (hsure hs)
      exact ⟨h.unrouted, .inr ⟨rfl, .inr ⟨hunsure, hport.1⟩⟩⟩
  | passed =>
    unfold Manager.proceed endPass
    dsimp only
    cases m.pending <;> exact ⟨h.unrouted, hlistener⟩

theorem Drained.proceedAt (h : Drained sure port m) (now : Nat) (tree : FileTree) (bindable : Bool)
    (place : Nat) (hsure : sure → bindable = true) :
    Drained sure port (m.proceedAt now tree bindable place) := by
  obtain ⟨s, hs⟩ := h.stands
  cases hplace : m.passes[place]? with
  | none =>
    rw [proceedAt_absent hplace]
    exact h
  | some current =>
    -- at most one refresh is under way, so the place is the first
    obtain ⟨p, hp⟩ : ∃ p, m.passes = [p] := by
      rcases hs.under_way with ⟨-, hnone⟩ | hone
      · simp [hnone] at hplace
      · exact hone
    obtain rfl : place = 0 := by
      cases place with
      | zero => rfl
      | succ n => simp [hp] at hplace
    obtain ⟨t, ht, -⟩ := stands_proceedAt hs now tree bindable 0
    obtain ⟨hroutes, hlistener⟩ := h.proceed hp now tree bindable hsure
    have hshut := shut_proceedAt h.shut now tree bindable 0
    have hout := proceedAt_only hp now tree bindable
    have hrebinding : (m.proceedAt now tree bindable 0).rebinding? =
        (m.proceed now tree bindable p).2.bind RefreshPass.port? := by
      rw [hout, rebinding?]
      cases (m.proceed now tree bindable p).2 <;> rfl
    refine ⟨hshut, ?_, ⟨t, ht⟩, ?_⟩
    · rw [hout]
      exact hroutes
    · rw [hrebinding, hout]
      exact hlistener

theorem Drained.requestRefresh (h : Drained sure port m) : Drained sure port m.requestRefresh := by
  obtain ⟨s, hs⟩ := h.stands
  obtain ⟨t, ht, -⟩ := stands_requestRefresh hs
  have hshut : m.requestRefresh.Shut := shut_occur h.shut (o := .act .refresh) (by simp)
  have hframe := m.requestRefresh_frame
  have hrebinding : m.requestRefresh.rebinding? = m.rebinding? := by
    unfold Manager.requestRefresh
    cases hr : m.refreshing with
    | true => rfl
    | false =>
      obtain rfl := hs.eq_idle hr
      simp [rebinding?, hs.1, RefreshPass.port?]
  refine h.still hshut ?_ ⟨t, ht⟩ ?_ hrebinding
  · rw [hframe]
    exact h.unrouted
  · rw [hframe]

/-- Only a start brings a manager back that has been shut down. -/
theorem Drained.perform (h : Drained sure port m) {a : Act} (ha : a ≠ .start)
    (hsure : sure → a.lets = true) : Drained sure port (m.perform a).1 := by
  obtain ⟨s, hs⟩ := h.stands
  obtain ⟨t, ht, -⟩ := stands_perform hs a
  have hshut : (m.perform a).1.Shut := shut_occur h.shut (o := .act a) (by simpa using ha)
  have hdaily : a.isDaily = true → Drained sure port (m.perform a).1 := by
    intro hdaily
    obtain ⟨triggers, alarms, hframe⟩ := perform_frame hdaily m
    rw [hframe] at ht hshut ⊢
    exact h.still hshut h.unrouted ⟨t, ht⟩ rfl rfl
  cases a with
  | start => exact absurd rfl ha
  | refresh => exact h.requestRefresh
  | proceed now tree bindable place => exact h.proceedAt now tree bindable place hsure
  | change | ring | fire | request => exact hdaily rfl
  | setPort port => exact h.still hshut h.unrouted ⟨t, ht⟩ rfl rfl
  | shutdown =>
    have hunsure : ¬ sure := fun hs => Bool.false_ne_true (hsure hs)
    refine ⟨hshut, rfl, ⟨t, ht⟩, ?_⟩
    rcases h.listener with ⟨-, hrebinding⟩ | ⟨hrebinding, -⟩
    · exact .inl ⟨rfl, hrebinding⟩
    · exact .inr ⟨hrebinding, .inr ⟨hunsure, rfl⟩⟩

theorem Drained.course (h : Drained sure port m) {acts : List Act} (ha : ∀ a ∈ acts, a ≠ .start)
    (hsure : sure → ∀ a ∈ acts, a.lets = true) : Drained sure port (m.course acts).1 := by
  induction acts generalizing m with
  | nil => exact h
  | cons a rest ih =>
    obtain ⟨hfirst, hrest⟩ := List.forall_mem_cons.mp ha
    exact ih (h.perform hfirst fun hs => hsure hs a (List.mem_cons_self ..)) hrest
      fun hs b hb => hsure hs b (List.mem_cons_of_mem _ hb)

end Drained

/-- What there is of a manager that was shut down as `m` and has become `m'` by these acts. -/
structure Remains (m : Manager) (acts : List Act) (m' : Manager) : Prop where
  unregistered : m'.table = []
  unrouted : m'.routes = []
  /-- The listener, if there is one, is the one that was being bound. -/
  listener : m'.listener = none ∨ m'.listener = m.rebinding?
  /-- It is there at the end of the refresh, if nobody keeps it from being bound or shuts the
  manager down once more. -/
  settled : m'.passes = [] → (∀ a ∈ acts, a.lets = true) → m'.listener = m.rebinding?

/-- **What a shutdown leaves behind.** Whatever has been done to a manager before, when it is shut
down and not started again, no trigger is registered and no path is routed, however a refresh that
is under way and further ones go on. But a listener is left behind exactly if the refresh was
waiting to bind one, or for the old one to stop before that: it is bound then. -/
theorem remains_of_shutdown (settings : TriggerSettings) (before after : List Act)
    (hstart : ∀ a ∈ after, a ≠ .start) :
    let m := ((new settings).course before).1
    Remains m after (m.shutdown.course after).1 := by
  intro m
  have hstands : ∃ s, m.Stands s := by
    obtain ⟨s, hs, -⟩ := through_course (stands_new settings) before
    exact ⟨s, hs⟩
  have hdrained : Drained False m.rebinding? (m.shutdown.course after).1 :=
    (drained_shutdown False hstands).course hstart fun hs => hs.elim
  constructor
  case unregistered => exact hdrained.shut.empty
  case unrouted => exact hdrained.unrouted
  case listener =>
    rcases hdrained.listener with ⟨hnone, -⟩ | ⟨-, hport | ⟨-, hnone⟩⟩
    · exact .inl hnone
    · exact .inr hport
    · exact .inl hnone
  case settled =>
    intro hidle hlets
    have hsure := (drained_shutdown True hstands).course hstart fun _ => hlets
    have hdone : (m.shutdown.course after).1.rebinding? = none := by
      rw [rebinding?, hidle]
      rfl
    rcases hsure.listener with ⟨hnone, hport⟩ | ⟨-, hport | ⟨hunsure, -⟩⟩
    · rw [hnone, ← hport, hdone]
    · exact hport
    · exact absurd trivial hunsure

/-- A course in which the listener of a webhook is to move to another port. -/
def moving : List Act :=
  [.start, .proceed 0 hookTree true 0, .proceed 0 hookTree true 0, .proceed 0 hookTree true 0,
    .setPort 9, .refresh, .proceed 0 hookTree true 0]

/-- Another refresh is asked for behind that, and all are carried to their ends. -/
def moved : List Act := [.refresh] ++ List.replicate 5 (.proceed 0 hookTree true 0)

theorem moved_when_shut :
    let m := ((new plain).course moving).1
    m.rebinding? = some 9 ∧ (m.shutdown.course moved).1.passes = [] ∧
      (m.shutdown.course moved).1.listener = some 9 := by
  decide +kernel

/-- What was being bound is what is left. -/
theorem remains_of_moving :
    (∀ a ∈ moved, a ≠ .start) ∧
      (((new plain).course moving).1.shutdown.course moved).1.table = [] ∧
      ((new plain).course moving).1.rebinding? = some 9 ∧
      (((new plain).course moving).1.shutdown.course moved).1.listener =
        ((new plain).course moving).1.rebinding? := by
  have hstart : ∀ a ∈ moved, a ≠ .start := by simp [moved]
  have hremains := remains_of_shutdown plain moving moved hstart
  obtain ⟨hport, hidle, -⟩ := moved_when_shut
  exact ⟨hstart, hremains.unregistered, hport,
    hremains.settled hidle (by simp [moved, Act.lets])⟩

/-- A manager that was shut down listens, and nothing is under way that could end it. -/
theorem shut_manager_listens :
    (∀ a ∈ moved, a ≠ .start) ∧
      (((new plain).course moving).1.shutdown.course moved).1.passes = [] ∧
      (((new plain).course moving).1.shutdown.course moved).1.listener = some 9 :=
  ⟨by simp [moved], moved_when_shut.2⟩

end Manager

end Workflow
