import Workflow.Bus.Exchange

/- Who is called for an event, over whole histories of a bus. Whoever is called, and other work
   beside, may do anything next that the log of all that has happened suggests, so a history is
   made by a conduct on logs; what it does inside a call is over before the next call. Each step
   adds an entry to the log that is lawful behind those before it (`turned`, `Kept.lawful_turn`),
   and keeps the subscribers of the bus those that the log has (`Kept.mirrors_turn`) and the calls
   that an emission has made and has yet to make those of the subscribers at its beginning
   (`Kept.owed_turn`). A call of the log is one that its subscriber has heard: the step behind it
   is what the conduct has the subscriber do (`step_of_called`), and those who note their calls
   have noted the calls of the log (`history_noting`). `deliveries_of_history` says so of every
   history. -/
namespace Workflow

/-- What is to be seen of a step around a bus. -/
inductive BusRecord (σ ε : Type) where
  | subscribed (id : Nat) (subscriber : σ)
  /-- A number is to be subscribed no more, and whether it was. -/
  | unsubscribed (id : Nat) (removed : Bool)
  | emitted (emission : Nat) (event : ε)
  | called (emission id : Nat) (subscriber : σ) (event : ε)

/-- What was to be seen, in order. -/
abbrev BusLog (σ ε : Type) := List (BusRecord σ ε)

section

variable {σ ε α μ : Type}

namespace BusLog

/-- Whether a subscriber has subscribed by a number and that was not taken back since. -/
def Subscribed (log : BusLog σ ε) (id : Nat) (s : σ) : Prop :=
  ∃ before since, log = before ++ .subscribed id s :: since ∧
    ∀ removed, .unsubscribed id removed ∉ since

/-- The numbers that were given. -/
def given (log : BusLog σ ε) : List Nat :=
  log.filterMap fun
    | .subscribed id _ => some id
    | _ => none

/-- The numbers of the emissions. -/
def emissions (log : BusLog σ ε) : List Nat :=
  log.filterMap fun
    | .emitted emission _ => some emission
    | _ => none

/-- The calls that an emission has made. -/
def calls (emission : Nat) (log : BusLog σ ε) : List (Nat × σ × ε) :=
  log.filterMap fun
    | .called k id s e => if k = emission then some (id, s, e) else none
    | _ => none

/-- Whether an entry can stand behind a log. -/
inductive Lawful (log : BusLog σ ε) : BusRecord σ ε → Prop where
  /-- Numbers are given in their order. -/
  | subscribed (s : σ) : Lawful log (.subscribed log.given.length s)
  /-- Something is removed if it was subscribed. -/
  | unsubscribed {id : Nat} {removed : Bool} (held : removed = true ↔ ∃ s, log.Subscribed id s) :
      Lawful log (.unsubscribed id removed)
  | emitted (e : ε) : Lawful log (.emitted log.emissions.length e)
  /-- A call is made for an event that is being emitted. -/
  | called {emission : Nat} {e : ε} (asked : .emitted emission e ∈ log) (id : Nat) (s : σ) :
      Lawful log (.called emission id s e)

end BusLog

namespace Exchange

/-- What is to be seen of the next step. -/
def record? (x : Exchange σ ε α μ) : Option (BusRecord σ ε) :=
  match x.agenda with
  | [] => none
  | .call emission id s e :: _ => some (.called emission id s e)
  | .act (.subscribe s) :: _ => some (.subscribed x.bus.next s)
  | .act (.unsubscribe id) :: _ => some (.unsubscribed id (x.bus.holds id))
  | .act (.emit e) :: _ => some (.emitted x.emissions e)
  | .act (.work _) :: _ => none

/-- An exchange and its log after so many steps, in which everybody follows a conduct. -/
def history (conduct : BusLog σ ε → BusRules σ ε α μ) (x : Exchange σ ε α μ) :
    Nat → Exchange σ ε α μ × BusLog σ ε
  | 0 => (x, [])
  | n + 1 =>
    let (x, log) := history conduct x n
    (x.step (conduct log), log ++ x.record?.toList)

/-- The exchange when the front of its agenda has left this memory, and asked for these actions
before the rest. -/
def continued (x : Exchange σ ε α μ) (done : μ × List (BusAction σ ε α))
    (rest : List (BusTask σ ε α)) : Exchange σ ε α μ :=
  { x with memory := done.1, agenda := done.2.map .act ++ rest }

/-- What a step can be under rules, and what is to be seen of it. -/
inductive Turn (rules : BusRules σ ε α μ) (x : Exchange σ ε α μ) :
    Option (BusRecord σ ε) → Exchange σ ε α μ → Prop where
  | idle (done : x.agenda = []) : Turn rules x none x
  /-- A subscriber is called: it does as the rules say, and what it asks for comes next. -/
  | called {k id : Nat} {s : σ} {e : ε} {rest : List (BusTask σ ε α)}
      (next : x.agenda = .call k id s e :: rest) :
      Turn rules x (some (.called k id s e)) (x.continued (rules.hear x.memory id s e) rest)
  | worked {task : α} {rest : List (BusTask σ ε α)}
      (next : x.agenda = .act (.work task) :: rest) :
      Turn rules x none (x.continued (rules.work x.memory task) rest)
  | subscribed {s : σ} {rest : List (BusTask σ ε α)}
      (next : x.agenda = .act (.subscribe s) :: rest) :
      Turn rules x (some (.subscribed x.bus.next s))
        { x with bus := x.bus.subscribe s, agenda := rest }
  | unsubscribed {id : Nat} {rest : List (BusTask σ ε α)}
      (next : x.agenda = .act (.unsubscribe id) :: rest) :
      Turn rules x (some (.unsubscribed id (x.bus.holds id)))
        { x with bus := x.bus.unsubscribe id, agenda := rest }
  /-- Whoever is subscribed is to be called, before anything else is done. -/
  | emitted {e : ε} {rest : List (BusTask σ ε α)} (next : x.agenda = .act (.emit e) :: rest) :
      Turn rules x (some (.emitted x.emissions e)) { x with
        agenda := x.bus.subscribers.map (fun (id, s) => .call x.emissions id s e) ++ rest
        emissions := x.emissions + 1 }

/-- A step that is seen as a call is that of the one who is called. -/
theorem Turn.of_called {rules : BusRules σ ε α μ} {x x' : Exchange σ ε α μ} {k id : Nat} {s : σ}
    {e : ε} (h : x.Turn rules (some (.called k id s e)) x') :
    ∃ rest, x.agenda = .call k id s e :: rest ∧
      x' = x.continued (rules.hear x.memory id s e) rest := by
  cases h with
  | called next => exact ⟨_, next, rfl⟩

theorem turned (x : Exchange σ ε α μ) (rules : BusRules σ ε α μ) :
    x.Turn rules x.record? (x.step rules) := by
  unfold step
  split
  · rename_i hnext
    rw [record?, hnext]
    exact .idle hnext
  · rename_i hnext
    rw [record?, hnext]
    exact .called hnext
  · rename_i hnext
    rw [record?, hnext]
    exact .subscribed hnext
  · rename_i hnext
    rw [record?, hnext]
    exact .unsubscribed hnext
  · rename_i hnext
    rw [record?, hnext]
    exact .emitted hnext
  · rename_i hnext
    rw [record?, hnext]
    exact .worked hnext

end Exchange

/-! ## Places of a log -/

/-- An entry of a log that is longer by one stands where it did, or is the new one. -/
theorem place_in_concat {R : Type} {log before after : List R} {r new : R}
    (h : log ++ [new] = before ++ r :: after) :
    (after = [] ∧ before = log ∧ r = new) ∨
      ∃ rest, after = rest ++ [new] ∧ log = before ++ r :: rest := by
  rcases List.eq_nil_or_concat after with rfl | ⟨rest, last, rfl⟩
  · obtain ⟨rfl, hr⟩ := List.append_inj' h rfl
    exact .inl ⟨rfl, rfl, (List.cons.inj hr).1.symm⟩
  · rw [List.concat_eq_append, ← List.cons_append, ← List.append_assoc] at h
    obtain ⟨hlog, hlast⟩ := List.append_inj' h rfl
    exact .inr ⟨rest, by rw [List.concat_eq_append, hlast], hlog⟩

namespace BusLog

variable {log : BusLog σ ε} {r : BusRecord σ ε} {id : Nat} {s : σ}

/-- Nobody is subscribed in a log of nothing. -/
theorem not_subscribed_nil : ¬ Subscribed ([] : BusLog σ ε) id s := by
  rintro ⟨before, since, hlog, -⟩
  simp at hlog

/-- Behind a log someone is subscribed who is new, or who was before and is not taken back. -/
theorem subscribed_concat : Subscribed (log ++ [r]) id s ↔
    r = .subscribed id s ∨ (log.Subscribed id s ∧ ∀ removed, r ≠ .unsubscribed id removed) := by
  constructor
  · rintro ⟨before, since, hlog, hkept⟩
    rcases place_in_concat hlog with ⟨-, -, hr⟩ | ⟨rest, rfl, hbefore⟩
    · exact .inl hr.symm
    · refine .inr ⟨⟨before, rest, hbefore, fun removed hmem => ?_⟩, fun removed hr => ?_⟩
      · exact hkept removed (List.mem_append_left _ hmem)
      · exact hkept removed (by simp [hr])
  · rintro (rfl | ⟨⟨before, since, rfl, hkept⟩, hr⟩)
    · exact ⟨log, [], rfl, by simp⟩
    · refine ⟨before, since ++ [r], by simp, fun removed hmem => ?_⟩
      rcases List.mem_append.mp hmem with hmem | hmem
      · exact hkept removed hmem
      · exact hr removed (List.mem_singleton.mp hmem).symm

end BusLog

/-! ## The subscribers -/

/-- Whether a list is that of those who are subscribed in a log, in the order in which they
subscribed. -/
structure BusLog.Roll (log : BusLog σ ε) (subscribers : List (Nat × σ)) : Prop where
  ordered : subscribers.Pairwise fun s t => s.1 < t.1
  mem_iff : ∀ id s, (id, s) ∈ subscribers ↔ log.Subscribed id s

/-- Whether a bus is as a log has it. -/
structure Bus.Mirrors (bus : Bus σ) (log : BusLog σ ε) : Prop where
  roll : log.Roll bus.subscribers
  given : log.given = List.range bus.next
  below : ∀ s ∈ bus.subscribers, s.1 < bus.next

namespace Bus.Mirrors

variable {bus : Bus σ} {log : BusLog σ ε}

theorem holds_iff (h : bus.Mirrors log) (id : Nat) :
    bus.holds id = true ↔ ∃ s, log.Subscribed id s := by
  rw [holds, List.any_eq_true]
  constructor
  · rintro ⟨⟨k, s⟩, hmem, hk⟩
    obtain rfl : k = id := by simpa using hk
    exact ⟨s, (h.roll.mem_iff k s).mp hmem⟩
  · rintro ⟨s, hs⟩
    exact ⟨(id, s), (h.roll.mem_iff id s).mpr hs, by simp⟩

theorem subscribe (h : bus.Mirrors log) (s : σ) :
    (bus.subscribe s).Mirrors (log ++ [.subscribed bus.next s]) where
  roll.ordered := by
    refine List.pairwise_append.mpr ⟨h.roll.ordered, List.pairwise_singleton _ _, ?_⟩
    intro t ht u hu
    rw [List.mem_singleton.mp hu]
    exact h.below t ht
  roll.mem_iff id t := by
    rw [Bus.subscribe, List.mem_append, h.roll.mem_iff, BusLog.subscribed_concat]
    simp [or_comm, eq_comm]
  given := by
    rw [BusLog.given, List.filterMap_append, ← BusLog.given, h.given, Bus.subscribe,
      List.range_succ]
    rfl
  below t ht := by
    rcases List.mem_append.mp ht with ht | ht
    · exact Nat.lt_succ_of_lt (h.below t ht)
    · rw [List.mem_singleton.mp ht]
      exact Nat.lt_succ_self bus.next

theorem unsubscribe (h : bus.Mirrors log) (id : Nat) (removed : Bool) :
    (bus.unsubscribe id).Mirrors (log ++ [.unsubscribed id removed]) where
  roll.ordered := h.roll.ordered.filter _
  roll.mem_iff k t := by
    rw [Bus.unsubscribe, List.mem_filter, h.roll.mem_iff, BusLog.subscribed_concat,
      or_iff_right (by simp), bne_iff_ne]
    refine and_congr_right fun _ => ⟨fun hne _ heq => ?_, fun hother heq => ?_⟩
    · cases heq
      exact hne rfl
    · obtain rfl : k = id := heq
      exact hother removed rfl
  given := by
    rw [BusLog.given, List.filterMap_append, ← BusLog.given, h.given]
    exact List.append_nil _
  below t ht := h.below t (List.mem_filter.mp ht).1

/-- Other entries are none of the bus. -/
theorem pass (h : bus.Mirrors log) {r : BusRecord σ ε}
    (hsubscribed : ∀ id s, r ≠ .subscribed id s)
    (hunsubscribed : ∀ id removed, r ≠ .unsubscribed id removed) : bus.Mirrors (log ++ [r]) where
  roll.ordered := h.roll.ordered
  roll.mem_iff id s := by
    rw [h.roll.mem_iff, BusLog.subscribed_concat, or_iff_right (hsubscribed id s),
      and_iff_left (hunsubscribed id)]
  given := by
    rw [BusLog.given, List.filterMap_append, ← BusLog.given, h.given]
    cases r with
    | subscribed id s => exact absurd rfl (hsubscribed id s)
    | unsubscribed | emitted | called => exact List.append_nil _
  below := h.below

end Bus.Mirrors

/-! ## The calls -/

/-- The calls that an emission has yet to make. -/
def pending (emission : Nat) (agenda : List (BusTask σ ε α)) : List (Nat × σ × ε) :=
  agenda.filterMap fun
    | .call k id s e => if k = emission then some (id, s, e) else none
    | _ => none

theorem pending_append (emission : Nat) (first later : List (BusTask σ ε α)) :
    pending emission (first ++ later) = pending emission first ++ pending emission later :=
  List.filterMap_append

theorem pending_acts (emission : Nat) (actions : List (BusAction σ ε α)) :
    pending (ε := ε) emission (actions.map .act) = [] := by
  rw [pending, List.filterMap_map]
  exact List.filterMap_eq_nil_iff.mpr fun _ _ => rfl

theorem pending_calls (emission k : Nat) (e : ε) (subscribers : List (Nat × σ)) :
    pending (α := α) emission (subscribers.map fun (id, s) => .call k id s e) =
      if k = emission then subscribers.map fun s => (s.1, s.2, e) else [] := by
  rw [pending, List.filterMap_map]
  split
  · rename_i hk
    rw [← List.filterMap_eq_map]
    congr 1
    funext s
    exact if_pos hk
  · rename_i hk
    exact List.filterMap_eq_nil_iff.mpr fun s _ => if_neg hk

namespace Exchange

/-- What holds of an exchange and the log of all that has happened. -/
structure Kept (x : Exchange σ ε α μ) (log : BusLog σ ε) : Prop where
  mirrors : x.bus.Mirrors log
  emissions : log.emissions = List.range x.emissions
  /-- Calls are yet to be made only for events that are being emitted. -/
  asked : ∀ emission id s e, .call emission id s e ∈ x.agenda → .emitted emission e ∈ log
  lawful : ∀ (before : BusLog σ ε) r after, log = before ++ r :: after → before.Lawful r
  /-- The calls of an emission that were made and are yet to be made are those of the subscribers at
  its beginning. -/
  owed : ∀ (before : BusLog σ ε) emission e (after : BusLog σ ε),
    log = before ++ .emitted emission e :: after →
      ∃ roll, before.Roll roll ∧ after.calls emission ++ pending emission x.agenda =
        roll.map fun s => (s.1, s.2, e)

section Turn

variable {rules : BusRules σ ε α μ} {x x' : Exchange σ ε α μ} {log : BusLog σ ε}
  {r : Option (BusRecord σ ε)}

theorem Kept.mirrors_turn (h : x.Kept log) (hx : x.Turn rules r x') :
    x'.bus.Mirrors (log ++ r.toList) := by
  cases hx with
  | idle | worked => exact (List.append_nil log).symm ▸ h.mirrors
  | called | emitted => exact h.mirrors.pass (by simp) (by simp)
  | subscribed => exact h.mirrors.subscribe _
  | unsubscribed => exact h.mirrors.unsubscribe _ _

theorem Kept.emissions_turn (h : x.Kept log) (hx : x.Turn rules r x') :
    (log ++ r.toList).emissions = List.range x'.emissions := by
  rw [BusLog.emissions, List.filterMap_append, ← BusLog.emissions, h.emissions]
  cases hx with
  | emitted => exact List.range_succ.symm
  | idle | worked | called | subscribed | unsubscribed => exact List.append_nil _

theorem Kept.asked_turn (h : x.Kept log) (hx : x.Turn rules r x') :
    ∀ emission id s e, .call emission id s e ∈ x'.agenda →
      .emitted emission e ∈ log ++ r.toList := by
  intro emission id s e hcall
  cases hx with
  | idle => exact List.mem_append_left _ (h.asked _ _ _ _ hcall)
  | called next | worked next =>
    refine List.mem_append_left _ (h.asked emission id s e ?_)
    rw [next]
    exact List.mem_cons_of_mem _ (by simpa [continued] using hcall)
  | subscribed next | unsubscribed next =>
    refine List.mem_append_left _ (h.asked emission id s e ?_)
    rw [next]
    exact List.mem_cons_of_mem _ hcall
  | emitted next =>
    rcases List.mem_append.mp hcall with hcall | hcall
    · obtain ⟨t, -, ht⟩ := List.mem_map.mp hcall
      cases ht
      exact List.mem_append_right _ (List.mem_singleton_self _)
    · refine List.mem_append_left _ (h.asked emission id s e ?_)
      rw [next]
      exact List.mem_cons_of_mem _ hcall

theorem Kept.lawful_turn (h : x.Kept log) (hx : x.Turn rules r x') :
    ∀ (before : BusLog σ ε) entry after, log ++ r.toList = before ++ entry :: after →
      before.Lawful entry := by
  intro before entry after hlog
  cases r with
  | none => exact h.lawful before entry after (by simpa using hlog)
  | some new =>
    rcases place_in_concat hlog with ⟨-, rfl, rfl⟩ | ⟨rest, -, hbefore⟩
    · have hgiven : x.bus.next = before.given.length := by
        rw [h.mirrors.given, List.length_range]
      have hemissions : x.emissions = before.emissions.length := by
        rw [h.emissions, List.length_range]
      cases hx with
      | called next =>
        exact .called (h.asked _ _ _ _ (by rw [next]; exact List.mem_cons_self)) _ _
      | subscribed =>
        rw [hgiven]
        exact .subscribed _
      | unsubscribed => exact .unsubscribed (h.mirrors.holds_iff _)
      | emitted =>
        rw [hemissions]
        exact .emitted _
    · exact h.lawful before entry rest hbefore

/-- No call is yet to be made for an emission that has not begun. -/
theorem Kept.pending_next (h : x.Kept log) : pending x.emissions x.agenda = [] := by
  refine List.filterMap_eq_nil_iff.mpr fun task htask => ?_
  cases task with
  | act action => rfl
  | call k id s e =>
    refine if_neg fun hk => ?_
    have hmem : k ∈ log.emissions := List.mem_filterMap.mpr ⟨_, h.asked _ _ _ _ htask, rfl⟩
    rw [h.emissions, hk] at hmem
    exact List.not_mem_range_self hmem

/-- What a turn calls is pending no more, and nothing else changes for an emission that has
begun. -/
theorem pending_turn (hx : x.Turn rules r x') {emission : Nat} (hbegun : emission < x.emissions) :
    BusLog.calls emission r.toList ++ pending emission x'.agenda = pending emission x.agenda := by
  cases hx with
  | idle => rfl
  | @called k id s e rest next =>
    rw [next, continued, pending_append, pending_acts]
    by_cases hk : k = emission <;> simp [BusLog.calls, pending, hk]
  | worked next =>
    rw [next, continued, pending_append, pending_acts]
    rfl
  | subscribed next | unsubscribed next =>
    rw [next]
    rfl
  | emitted next =>
    rw [next, pending_append, pending_calls, if_neg (Nat.ne_of_gt hbegun)]
    rfl

theorem Kept.owed_turn (h : x.Kept log) (hx : x.Turn rules r x') :
    ∀ (before : BusLog σ ε) emission e (after : BusLog σ ε),
      log ++ r.toList = before ++ .emitted emission e :: after →
        ∃ roll, before.Roll roll ∧ after.calls emission ++ pending emission x'.agenda =
          roll.map fun s => (s.1, s.2, e) := by
  -- an emission that has begun before
  have hold : ∀ (before : BusLog σ ε) emission e (after : BusLog σ ε),
      log = before ++ .emitted emission e :: after →
        ∃ roll, before.Roll roll ∧
          BusLog.calls emission (after ++ r.toList) ++ pending emission x'.agenda =
            roll.map fun s => (s.1, s.2, e) := by
    intro before emission e after hlog
    obtain ⟨roll, hroll, howed⟩ := h.owed before emission e after hlog
    have hbegun : emission < x.emissions := by
      have hmem : emission ∈ log.emissions :=
        List.mem_filterMap.mpr ⟨.emitted emission e, by simp [hlog], rfl⟩
      rw [h.emissions] at hmem
      exact List.mem_range.mp hmem
    refine ⟨roll, hroll, ?_⟩
    rw [BusLog.calls, List.filterMap_append, List.append_assoc, ← BusLog.calls, ← BusLog.calls,
      pending_turn hx hbegun]
    exact howed
  intro before emission e after hlog
  cases r with
  | none => simpa using hold before emission e after (by simpa using hlog)
  | some new =>
    rcases place_in_concat hlog with ⟨rfl, rfl, hnew⟩ | ⟨rest, rfl, hbefore⟩
    · cases hx with
      | called | subscribed | unsubscribed => cases hnew
      | @emitted _ rest next =>
        cases hnew
        have hrest : pending x.emissions rest = [] := by
          have hnone := h.pending_next
          rwa [next] at hnone
        refine ⟨x.bus.subscribers, h.mirrors.roll, ?_⟩
        rw [pending_append, pending_calls, if_pos rfl, hrest, List.append_nil]
        rfl
    · exact hold before emission e rest hbefore

theorem Kept.turn (h : x.Kept log) (hx : x.Turn rules r x') : x'.Kept (log ++ r.toList) where
  mirrors := h.mirrors_turn hx
  emissions := h.emissions_turn hx
  asked := h.asked_turn hx
  lawful := h.lawful_turn hx
  owed := h.owed_turn hx

end Turn

end Exchange

/-! ## Whole histories -/

namespace Exchange

/-- A bus that nobody has subscribed to yet, and actions that are to be done around it, each until
all that comes of those before it is done. -/
def opening (memory : μ) (actions : List (BusAction σ ε α)) : Exchange σ ε α μ where
  bus := {}
  memory
  agenda := actions.map .act

theorem kept_opening (memory : μ) (actions : List (BusAction σ ε α)) :
    (opening memory actions).Kept [] where
  mirrors := {
    roll := { ordered := .nil, mem_iff := by simp [opening, BusLog.not_subscribed_nil] }
    given := rfl
    below := by simp [opening] }
  emissions := rfl
  asked := by simp [opening]
  lawful := by simp
  owed := by simp

theorem kept_history {x : Exchange σ ε α μ} (h : x.Kept [])
    (conduct : BusLog σ ε → BusRules σ ε α μ) (n : Nat) :
    (history conduct x n).1.Kept (history conduct x n).2 := by
  induction n with
  | zero => exact h
  | succ n ih => exact ih.turn (turned _ _)

/-- The agenda worked through is a history in which nobody heeds the log. -/
theorem settle_eq_history (rules : BusRules σ ε α μ) (x : Exchange σ ε α μ) (n : Nat) :
    settle rules n x = (history (fun _ => rules) x n).1 := by
  have hfront : ∀ (x : Exchange σ ε α μ) (n : Nat),
      (history (fun _ => rules) x (n + 1)).1 = (history (fun _ => rules) (x.step rules) n).1 := by
    intro x n
    induction n with
    | zero => rfl
    | succ n ih => exact congrArg (step rules) ih
  induction n generalizing x with
  | zero => rfl
  | succ n ih =>
    rw [hfront, ← ih, settle]
    split
    · rename_i hdone
      have hstep : x.step rules = x := by
        rw [step, List.isEmpty_iff.mp hdone]
      rw [hstep]
      cases n <;> simp [settle, hdone]
    · rfl

end Exchange

/-! ## What those who are called do -/

/-- The calls that were made, whatever emissions they were part of. -/
def BusLog.heard (log : BusLog σ ε) : List (Nat × σ × ε) :=
  log.filterMap fun
    | .called _ id s e => some (id, s, e)
    | _ => none

/-- The rules when whoever is called notes that as well, in a book beside the memory. -/
def BusRules.noting (rules : BusRules σ ε α μ) : BusRules σ ε α (μ × List (Nat × σ × ε)) where
  hear m id s e :=
    (((rules.hear m.1 id s e).1, m.2 ++ [(id, s, e)]), (rules.hear m.1 id s e).2)
  work m task := (((rules.work m.1 task).1, m.2), (rules.work m.1 task).2)

namespace Exchange

/-- The exchange with a book beside its memory. -/
def withBook (x : Exchange σ ε α μ) (book : List (Nat × σ × ε)) :
    Exchange σ ε α (μ × List (Nat × σ × ε)) where
  bus := x.bus
  memory := (x.memory, book)
  agenda := x.agenda
  emissions := x.emissions

/-- A step writes the call into the book if it makes one, and is the same otherwise. -/
theorem step_noting (rules : BusRules σ ε α μ) (x : Exchange σ ε α μ)
    (book : List (Nat × σ × ε)) :
    (x.withBook book).step rules.noting =
      (x.step rules).withBook (book ++ BusLog.heard x.record?.toList) := by
  have hsame : (x.withBook book).agenda = x.agenda := rfl
  have hstep := x.turned rules
  generalize x.record? = r at hstep
  generalize x.step rules = x' at hstep
  unfold step
  cases hstep with
  | idle hnext =>
    rw [hsame, hnext]
    exact congrArg x.withBook (List.append_nil book).symm
  | called hnext =>
    rw [hsame, hnext]
    rfl
  | worked hnext | subscribed hnext | unsubscribed hnext | emitted hnext =>
    rw [hsame, hnext]
    simp [withBook, continued, BusRules.noting, BusLog.heard]

/-- Whether the calls are noted or not, a history is the same, and the book has the calls of its
log. -/
theorem history_noting (conduct : BusLog σ ε → BusRules σ ε α μ) (x : Exchange σ ε α μ) (n : Nat) :
    history (fun log => (conduct log).noting) (x.withBook []) n =
      ((history conduct x n).1.withBook (history conduct x n).2.heard,
        (history conduct x n).2) := by
  induction n with
  | zero => rfl
  | succ n ih =>
    have hrecord : ∀ (y : Exchange σ ε α μ) book, (y.withBook book).record? = y.record? :=
      fun _ _ => rfl
    simp only [history, ih, step_noting, hrecord, BusLog.heard, List.filterMap_append]

/-- A call of the log was made at a step, by which the one who was called did as the conduct
says. -/
theorem step_of_called (conduct : BusLog σ ε → BusRules σ ε α μ) (x : Exchange σ ε α μ)
    {n : Nat} {before after : BusLog σ ε} {k id : Nat} {s : σ} {e : ε}
    (h : (history conduct x n).2 = before ++ .called k id s e :: after) :
    ∃ m < n, ∃ (y : Exchange σ ε α μ) (rest : List (BusTask σ ε α)),
      history conduct x m = (y, before) ∧ y.agenda = .call k id s e :: rest ∧
        (history conduct x (m + 1)).1 =
          y.continued ((conduct before).hear y.memory id s e) rest := by
  induction n generalizing after with
  | zero => simp [history] at h
  | succ n ih =>
    have hstep := (history conduct x n).1.turned (conduct (history conduct x n).2)
    have hlog : (history conduct x (n + 1)).2 =
        (history conduct x n).2 ++ (history conduct x n).1.record?.toList := rfl
    rw [hlog] at h
    cases hr : (history conduct x n).1.record? with
    | none =>
      obtain ⟨m, hm, hmade⟩ := ih (by simpa [hr] using h)
      exact ⟨m, Nat.lt_succ_of_lt hm, hmade⟩
    | some new =>
      rw [hr] at h
      rcases place_in_concat h with ⟨-, rfl, rfl⟩ | ⟨rest, -, hbefore⟩
      · -- the last step is the one
        rw [hr] at hstep
        obtain ⟨rest, hnext, hdone⟩ := hstep.of_called
        exact ⟨n, Nat.lt_succ_self n, (history conduct x n).1, rest, rfl, hnext, hdone⟩
      · obtain ⟨m, hm, hmade⟩ := ih hbefore
        exact ⟨m, Nat.lt_succ_of_lt hm, hmade⟩

end Exchange

/-- Who has been called for what around a bus, by all that has happened. -/
structure Delivered (x : Exchange σ ε α μ) (log : BusLog σ ε) : Prop where
  /-- The numbers of subscribers are given one after the other, and never again. -/
  given : log.given = List.range x.bus.next
  /-- So are those of the emissions. -/
  emissions : log.emissions = List.range x.emissions
  /-- A number is taken away if it was given and has not been taken back since. -/
  removed : ∀ (before : BusLog σ ε) id removed after,
    log = before ++ .unsubscribed id removed :: after →
      (removed = true ↔ ∃ s, before.Subscribed id s)
  /-- An emission calls those who were subscribed when it began, each once and in the order in which
  they subscribed: it has called the first of them, and the others are yet to be called. -/
  called : ∀ (before : BusLog σ ε) emission e (after : BusLog σ ε),
    log = before ++ .emitted emission e :: after →
      ∃ roll, before.Roll roll ∧ after.calls emission ++ pending emission x.agenda =
        roll.map fun s => (s.1, s.2, e)
  /-- Nobody is called for anything else. -/
  asked : ∀ (before : BusLog σ ε) emission id s e after,
    log = before ++ .called emission id s e :: after → .emitted emission e ∈ before

/-- What the calls around a bus have come to, by a number of steps. -/
structure Heeded (conduct : BusLog σ ε → BusRules σ ε α μ) (x : Exchange σ ε α μ) (n : Nat) :
    Prop where
  /-- At each call of the log the one who is called does as the conduct says: the memory is what it
  makes of it, and all that it asks for is done before anything else. -/
  done : ∀ (before : BusLog σ ε) k id s e after,
    (Exchange.history conduct x n).2 = before ++ .called k id s e :: after →
      ∃ m < n, ∃ (y : Exchange σ ε α μ) (rest : List (BusTask σ ε α)),
        Exchange.history conduct x m = (y, before) ∧ y.agenda = .call k id s e :: rest ∧
          (Exchange.history conduct x (m + 1)).1 =
            y.continued ((conduct before).hear y.memory id s e) rest
  /-- If those who are called note it themselves, nothing else changes, and what they have noted are
  the calls of the log. -/
  noted : Exchange.history (fun log => (conduct log).noting) (x.withBook []) n =
    ((Exchange.history conduct x n).1.withBook (Exchange.history conduct x n).2.heard,
      (Exchange.history conduct x n).2)

end

/-- **Deliveries of a bus.** Whatever is done around a bus, by those who are called and by others,
each subscriber is called once for every event whose emission begins while it is subscribed, and for
no other, in the order of the subscriptions; and whoever is called has heard of it. -/
theorem deliveries_of_history {σ ε α μ : Type} (conduct : BusLog σ ε → BusRules σ ε α μ)
    (memory : μ) (actions : List (BusAction σ ε α)) (n : Nat) :
    Delivered (Exchange.history conduct (Exchange.opening memory actions) n).1
        (Exchange.history conduct (Exchange.opening memory actions) n).2 ∧
      Heeded conduct (Exchange.opening memory actions) n := by
  refine ⟨?_, fun _ _ _ _ _ _ => Exchange.step_of_called conduct _,
    Exchange.history_noting conduct _ n⟩
  have hkept := Exchange.kept_history (Exchange.kept_opening memory actions) conduct n
  generalize Exchange.history conduct (Exchange.opening memory actions) n = out at hkept
  obtain ⟨x, log⟩ := out
  constructor
  case given => exact hkept.mirrors.given
  case emissions => exact hkept.emissions
  case removed =>
    intro before id removed after hlog
    cases hkept.lawful _ _ _ hlog with
    | unsubscribed held => exact held
  case called => exact hkept.owed
  case asked =>
    intro before emission id s e after hlog
    cases hkept.lawful _ _ _ hlog with
    | called asked => exact asked

/-- One whom another unsubscribes during an emission is still called in it, but not in those that
begin afterwards. -/
example :
    let rules : BusRules Unit Nat Unit Unit :=
      { hear := fun m id _ e => (m, if id = 0 ∧ e = 7 then [.unsubscribe 1, .emit 8] else [])
        work := fun m _ => (m, []) }
    (Exchange.history (fun _ => rules)
      (Exchange.opening () [.subscribe (), .subscribe (), .emit 7]) 20).2 =
      [.subscribed 0 (), .subscribed 1 (), .emitted 0 7, .called 0 0 () 7, .unsubscribed 1 true,
        .emitted 1 8, .called 1 0 () 8, .called 0 1 () 7] := rfl

end Workflow
