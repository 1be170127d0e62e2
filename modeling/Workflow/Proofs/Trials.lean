import Workflow.Proofs.CooldownReplays
import Workflow.Proofs.Wiring

/- The trials of a trigger. It is tried by ticks, by changes that have come to rest, by
   requests that it authorises and by hand, and two places of the manager ask one cooldown.
   There are few ways in which anything can stir the triggers (`Stirring`), and what comes
   of a trial is the same in all of them (`Fares`). So the trials of a trigger are a replay
   of its cooldown (`judged_trials`), which is unused when the trigger is registered
   (`Newcomer`), and it fires by its accepted trials alone (`fired_occur`). -/
namespace Workflow

/-! ## Trials of a trigger -/

/-- The trigger that an alarm's task is for. -/
def AlarmTask.trigger? : AlarmTask → Option Nat
  | .tick t _ | .change t _ => some t
  | .refresh => none

/-- Whether a trigger that is tried at a time fires. -/
def LiveTrigger.admits (live : LiveTrigger) (now : Nat) : Bool :=
  !live.disposed && live.cooldown.accepts now

namespace Manager

/-- What can happen around the triggers of a manager. -/
inductive Occurrence where
  | act (act : Act)
  /-- A trigger is tried by what still refers to it, be it registered or not. -/
  | late (now trigger : Nat) (event : Json)

/-- The manager after an occurrence, and the firings that come of it. -/
def occur (m : Manager) : Occurrence → Manager × List Firing
  | .act a => m.perform a
  | .late now t event => ((m.attempt now t event).1, (m.attempt now t event).2.toList)

/-- The manager after occurrences, and all the firings that come of them. -/
def occurAll (m : Manager) : List Occurrence → Manager × List Firing
  | [] => (m, [])
  | o :: rest =>
    (((m.occur o).1.occurAll rest).1, (m.occur o).2 ++ ((m.occur o).1.occurAll rest).2)

/-- The time of an occurrence, if it takes any notice of the clock. -/
def Occurrence.time? : Occurrence → Option Nat
  | .act (.proceed now _ _ _) | .act (.change now _ _) | .act (.ring now _ _) => some now
  | .act (.fire now _ _) | .act (.request now _) | .late now _ _ => some now
  | .act _ => none

/-- The triggers that an occurrence tries: that of a tick or of a change that has come to rest, the
one that is fired by hand, and the candidates of a request that it authorises. -/
def tries (m : Manager) : Occurrence → List Nat
  | .act (.ring _ _ number) => ((m.alarms.find? number).bind (·.item.trigger?)).toList
  | .act (.fire _ id _) =>
    (m.table.find? fun t => ((m.triggers[t]?).map (·.definition.id)) == some id).toList
  | .act (.request _ r) => (m.candidates r).filter fun t =>
      (m.hook? t).any (·.admits (r.headerText? m.settings.headerName))
  | .late _ t _ => [t]
  | .act _ => []

/-- The time at which an occurrence tries a trigger, if it does. -/
def triedAt? (m : Manager) (t : Nat) (o : Occurrence) : Option Nat :=
  if t ∈ m.tries o then o.time? else none

/-- What an occurrence is to a trigger. -/
def trial? (m : Manager) (t : Nat) (o : Occurrence) : Option Trial :=
  match m.triggers[t]?, m.triedAt? t o with
  | some live, some now => some ⟨now, live.disposed, live.admits now⟩
  | _, _ => none

/-- The trials of a trigger, in the order of the occurrences. -/
def trials (m : Manager) (t : Nat) : List Occurrence → List Trial
  | [] => []
  | o :: rest => (m.trial? t o).toList ++ (m.occur o).1.trials t rest

/-- The definitions that a trigger fires with. -/
def fired (t : Nat) (firings : List Firing) : List TriggerDefinition :=
  (firings.filter (·.trigger == t)).map (·.definition)

/-! ## What an occurrence can do -/

/-- What an occurrence can do to the triggers of a manager, and the firings that come of it. -/
inductive Stirring (m : Manager) : Occurrence → Manager × List Firing → Prop where
  | rest {o : Occurrence} {out : Manager × List Firing} (untried : m.tries o = [])
      (triggers : out.1.triggers = m.triggers) (silent : out.2 = []) : Stirring m o out
  | attempt {o : Occurrence} {out : Manager × List Firing} {now i : Nat} {event : Json}
      (tried : m.tries o = [i]) (time : o.time? = some now)
      (triggers : out.1.triggers = (m.attempt now i event).1.triggers)
      (firings : out.2 = (m.attempt now i event).2.toList) : Stirring m o out
  | request {now : Nat} {r : Http.Request} {a : Asked}
      (asking : Asking m now r (m.candidates r) a) :
      Stirring m (.act (.request now r)) (a.manager, a.firings)
  /-- The triggers in the table are disposed of, and others are registered. -/
  | renewal {o : Occurrence} {out : Manager × List Firing} (found : List TriggerDefinition)
      (untried : m.tries o = [])
      (triggers : out.1.triggers =
        m.triggers.zipIdx.map (disposeOf m.table) ++ found.map .ofDefinition)
      (silent : out.2 = []) : Stirring m o out

section Stirring

variable {m : Manager}

theorem stirring_fire (m : Manager) (now : Nat) (id : String) (event : Json) :
    Stirring m (.act (.fire now id event)) (m.occur (.act (.fire now id event))) := by
  cases hfind : m.table.find? fun t => ((m.triggers[t]?).map (·.definition.id)) == some id with
  | none =>
    have huntried : m.tries (.act (.fire now id event)) = [] := by simp [tries, hfind]
    have hout : m.occur (.act (.fire now id event)) = (m, []) := by
      simp [occur, perform, fire, hfind]
    rw [hout]
    exact .rest huntried rfl rfl
  | some i =>
    have htried : m.tries (.act (.fire now id event)) = [i] := by simp [tries, hfind]
    have hout : m.fire now id event = m.attempt now i event := by simp [fire, hfind]
    have hoccur : m.occur (.act (.fire now id event)) =
        ((m.attempt now i event).1, (m.attempt now i event).2.toList) := by
      simp [occur, perform, hout]
    rw [hoccur]
    exact .attempt htried rfl rfl rfl

theorem stirring_ring (h : m.Wired) (now : Nat) (timestamp : String) (number : Nat) :
    Stirring m (.act (.ring now timestamp number))
      (m.occur (.act (.ring now timestamp number))) := by
  have hrung := m.rung now timestamp number
  show Stirring m _
    ((m.ring now timestamp number).1, (m.ring now timestamp number).2.firing?.toList)
  generalize m.ring now timestamp number = out at hrung
  cases hrung with
  | absent missing => exact .rest (by simp [tries, missing]) rfl rfl
  | refresh found item => exact .rest (by simp [tries, found, item, AlarmTask.trigger?]) rfl rfl
  | change found item =>
    exact .attempt (by simp [tries, found, item, AlarmTask.trigger?]) rfl rfl
      (by rw [Ring.firing?_ofFiring?])
  | tick found item timer =>
    exact .attempt (by simp [tries, found, item, AlarmTask.trigger?]) rfl rfl
      (by rw [Ring.firing?_ofFiring?])
  | stray found item gone => exact (h.no_stray found item gone).elim

theorem stirring_request (m : Manager) (now : Nat) (r : Http.Request) :
    Stirring m (.act (.request now r)) (m.occur (.act (.request now r))) := by
  obtain ⟨a, hasking, hmanager, hfirings, -⟩ := m.handle_asking now r
  have hout : m.occur (.act (.request now r)) = (a.manager, a.firings) := by
    rw [← hmanager, ← hfirings]
    rfl
  rw [hout]
  exact .request hasking

/-- A pass disposes of the triggers in the table and registers those that are found. -/
theorem pass_triggers (m : Manager) (now : Nat) (tree : FileTree) :
    ∃ found : List TriggerDefinition, (m.pass now tree).1.triggers =
      m.triggers.zipIdx.map (disposeOf m.table) ++ found.map .ofDefinition := by
  unfold pass
  dsimp only
  split
  · exact ⟨[], (List.append_nil _).symm⟩
  · refine ⟨m.clear.declared tree, ?_⟩
    rw [(synced _).frame.1]
    exact install_triggers m.clear now _

theorem stirring_proceed (m : Manager) (now : Nat) (tree : FileTree) (bindable : Bool)
    (place : Nat) :
    Stirring m (.act (.proceed now tree bindable place))
      (m.occur (.act (.proceed now tree bindable place))) := by
  show Stirring m _ (m.proceedAt now tree bindable place, [])
  unfold proceedAt
  split
  · exact .rest rfl rfl rfl
  · rename_i p _
    cases p with
    | ready =>
      obtain ⟨found, htriggers⟩ := m.pass_triggers now tree
      exact .renewal found rfl htriggers rfl
    | stopping port => cases port <;> exact .rest rfl rfl rfl
    | binding port => cases bindable <;> exact .rest rfl rfl rfl
    | passed =>
      refine .rest rfl ?_ rfl
      unfold proceed endPass
      dsimp only
      split <;> rfl

/-- Whatever occurs, it is one of these. -/
theorem stirring (h : m.Wired) (o : Occurrence) : Stirring m o (m.occur o) := by
  have hrefresh : ∀ m : Manager, m.requestRefresh.triggers = m.triggers := by
    intro m
    rw [requestRefresh_frame]
  cases o with
  | late now i event => exact .attempt rfl rfl rfl rfl
  | act a =>
    cases a with
    | fire now id event => exact stirring_fire m now id event
    | ring now timestamp number => exact stirring_ring h now timestamp number
    | request now r => exact stirring_request m now r
    | proceed now tree bindable place => exact stirring_proceed m now tree bindable place
    | shutdown => exact .renewal [] rfl (List.append_nil _).symm rfl
    | change now path kind =>
      have htriggers : (m.change now path kind).triggers = m.triggers := by rw [change_frame]
      exact .rest rfl htriggers rfl
    | start => exact .rest rfl (hrefresh _) rfl
    | refresh => exact .rest rfl (hrefresh m) rfl
    | setPort port => exact .rest rfl rfl rfl

end Stirring

/-! ## Known triggers -/

/-- What comes of a trigger that is tried at a time, or not at all: only if it is accepted it fires,
once, and its cooldown begins. -/
structure Fares (live : LiveTrigger) (t : Nat) (tried? : Option Nat) (out : Manager × List Firing) :
    Prop where
  kept : ∃ live', out.1.triggers[t]? = some live' ∧ live'.definition = live.definition ∧
    live'.cooldown =
      (if tried?.any live.admits then { live.cooldown with last := tried? } else live.cooldown)
  fired : fired t out.2 = if tried?.any live.admits then [live.definition] else []

section Fares

variable {m : Manager} {t : Nat} {live : LiveTrigger}

/-- One trigger tried. -/
theorem fares_attempt (hl : m.triggers[t]? = some live) (now i : Nat) (event : Json) :
    Fares live t (if t = i then some now else none)
      ((m.attempt now i event).1, (m.attempt now i event).2.toList) := by
  have h := attempt_spec m now i event
  generalize m.attempt now i event = out at h
  cases h with
  | @fired live' known alive cooled =>
    by_cases hti : t = i
    · subst hti
      obtain rfl := Option.some.inj (hl.symm.trans known)
      have hlt := (List.getElem?_eq_some_iff.mp hl).1
      have hadmits : live.admits now = true := by simp [LiveTrigger.admits, alive, cooled]
      constructor
      case kept =>
        refine ⟨live.rested now, ?_, rfl, ?_⟩
        · simp [hlt]
        · simp [hadmits, LiveTrigger.rested]
      case fired => simp [Manager.fired, hadmits]
    · constructor
      case kept =>
        refine ⟨live, ?_, rfl, by simp [hti]⟩
        dsimp only
        rw [List.getElem?_set_ne (Ne.symm hti), hl]
      case fired => simp [Manager.fired, hti, Ne.symm hti]
  | refused why =>
    have hrefused : (if t = i then some now else none).any live.admits = false := by
      by_cases hti : t = i
      · subst hti
        cases hd : live.disposed with
        | true => simp [LiveTrigger.admits, hd]
        | false => simp [LiveTrigger.admits, why live hl hd]
      · simp [hti]
    exact ⟨⟨live, hl, rfl, by simp [hrefused]⟩, by simp [hrefused, Manager.fired]⟩

/-- Of firings of different triggers one is that of a trigger that is among these. -/
theorem filter_of_mem {firings : List Firing} (hn : (firings.map (·.trigger)).Nodup)
    (hmem : t ∈ firings.map (·.trigger)) :
    ∃ f ∈ firings, f.trigger = t ∧ firings.filter (·.trigger == t) = [f] := by
  have hone : (firings.filter (·.trigger == t)).length = 1 := by
    have hcount := List.count_eq_one_of_mem hn hmem
    rwa [List.count, List.countP_map, List.countP_eq_length_filter] at hcount
  obtain ⟨f, hf⟩ := List.length_eq_one_iff.mp hone
  obtain ⟨hfirings, htrigger⟩ := List.mem_filter.mp (hf ▸ List.mem_singleton_self f)
  exact ⟨f, hfirings, by simpa using htrigger, hf⟩

theorem fired_of_mem {firings : List Firing} {d : TriggerDefinition}
    (hn : (firings.map (·.trigger)).Nodup) (hmem : t ∈ firings.map (·.trigger))
    (hd : ∀ f ∈ firings, f.trigger = t → f.definition = d) : fired t firings = [d] := by
  obtain ⟨f, hfirings, htrigger, hf⟩ := filter_of_mem hn hmem
  unfold fired
  rw [hf, List.map_singleton, hd f hfirings htrigger]

theorem fired_of_not_mem {firings : List Firing} (h : t ∉ firings.map (·.trigger)) :
    fired t firings = [] := by
  have hnone : firings.filter (·.trigger == t) = [] := by
    refine List.filter_eq_nil_iff.mpr fun f hf htrigger => h ?_
    exact List.mem_map.mpr ⟨f, hf, by simpa using htrigger⟩
  rw [fired, hnone, List.map_nil]

/-- A request asks no trigger twice. -/
theorem Wired.candidates_nodup (h : m.Wired) (r : Http.Request) : (m.candidates r).Nodup :=
  (h.routed_nodup _).filter _

/-- The triggers of a request asked. -/
theorem fares_asking (h : m.Wired) (hl : m.triggers[t]? = some live) {now : Nat}
    {r : Http.Request} {a : Asked} (hasking : Asking m now r (m.candidates r) a) :
    Fares live t (m.triedAt? t (.act (.request now r))) (a.manager, a.firings) := by
  -- the triggers that fire are those tried and accepted
  have hmem : t ∈ a.firings.map (·.trigger) ↔
      t ∈ m.tries (.act (.request now r)) ∧ live.admits now = true := by
    have htries : t ∈ m.tries (.act (.request now r)) ↔ t ∈ m.candidates r ∧
        (m.hook? t).any (·.admits (r.headerText? m.settings.headerName)) = true :=
      List.mem_filter
    rw [hasking.mem_iff, authorises_iff, cooled_iff hl, htries, hl, LiveTrigger.admits]
    simp only [Option.map_some, Option.getD_some, Bool.and_eq_true, Bool.not_eq_true']
    tauto
  have htried : m.triedAt? t (.act (.request now r)) =
      if t ∈ m.tries (.act (.request now r)) then some now else none := rfl
  by_cases hf : t ∈ a.firings.map (·.trigger)
  · obtain ⟨hin, hadmits⟩ := hmem.mp hf
    rw [htried, if_pos hin]
    constructor
    case kept =>
      refine ⟨live.rested now, ?_, rfl, by simp [hadmits, LiveTrigger.rested]⟩
      rw [hasking.fired t hf, hl]
      rfl
    case fired =>
      have hnodup := (h.candidates_nodup r).sublist hasking.order
      have hdefinition : ∀ f ∈ a.firings, f.trigger = t → f.definition = live.definition := by
        intro f hfmem htrigger
        obtain ⟨-, old, hold, hdefinition⟩ := hasking.firings f hfmem
        rw [htrigger, hl] at hold
        rw [hdefinition, Option.some.inj hold]
      rw [fired_of_mem hnodup hf hdefinition]
      simp [hadmits]
  · have hrefused : (m.triedAt? t (.act (.request now r))).any live.admits = false := by
      rw [htried]
      by_cases hin : t ∈ m.tries (.act (.request now r))
      · have hadmits : live.admits now = false :=
          Bool.eq_false_iff.mpr fun hadmits => hf (hmem.mpr ⟨hin, hadmits⟩)
        simp [hin, hadmits]
      · simp [hin]
    constructor
    case kept =>
      refine ⟨live, ?_, rfl, by simp [hrefused]⟩
      rw [hasking.kept t hf, hl]
    case fired => simp [fired_of_not_mem hf, hrefused]

/-- Whatever occurs, a trigger fares by whether it is tried. -/
theorem fares_occur (h : m.Wired) (hl : m.triggers[t]? = some live) (o : Occurrence) :
    Fares live t (m.triedAt? t o) (m.occur o) := by
  have hstirring := stirring h o
  generalize m.occur o = out at hstirring
  cases hstirring with
  | rest untried triggers silent =>
    have htried : m.triedAt? t o = none := by simp [triedAt?, untried]
    rw [htried]
    exact ⟨⟨live, triggers ▸ hl, rfl, rfl⟩, by rw [silent]; rfl⟩
  | @attempt _ _ now i event tried time triggers firings =>
    have htried : m.triedAt? t o = if t = i then some now else none := by
      simp [triedAt?, tried, time]
    have hattempt := fares_attempt hl now i event
    rw [htried]
    exact ⟨triggers ▸ hattempt.kept, firings ▸ hattempt.fired⟩
  | request asking => exact fares_asking h hl asking
  | renewal found untried triggers silent =>
    have htried : m.triedAt? t o = none := by simp [triedAt?, untried]
    have hlt := (List.getElem?_eq_some_iff.mp hl).1
    have hdisposed : out.1.triggers[t]? = some (disposeOf m.table (live, t)) := by
      rw [triggers, List.getElem?_append_left (by simpa using hlt)]
      simp [List.getElem?_zipIdx, hl]
    rw [htried]
    refine ⟨⟨_, hdisposed, ?_⟩, by rw [silent]; rfl⟩
    -- it may be disposed of, but its cooldown stays
    unfold disposeOf
    split <;> exact ⟨rfl, rfl⟩

end Fares

/-! ## Triggers not known yet -/

/-- What comes of a trigger that is not known: it does not fire, and if it is known afterwards it
has just been registered. -/
structure Newcomer (t : Nat) (out : Manager × List Firing) : Prop where
  silent : fired t out.2 = []
  fresh : ∀ live, out.1.triggers[t]? = some live → live = .ofDefinition live.definition

section Newcomer

variable {m : Manager} {t : Nat}

/-- A trigger that goes on not being known. -/
theorem Newcomer.unknown {out : Manager × List Firing} (h : out.1.triggers[t]? = none)
    (hf : fired t out.2 = []) : Newcomer t out :=
  ⟨hf, fun live hl => absurd (h.symm.trans hl) (Option.some_ne_none live).symm⟩

theorem newcomer_attempt (hn : m.triggers[t]? = none) (now i : Nat) (event : Json) :
    (m.attempt now i event).1.triggers[t]? = none ∧
      fired t (m.attempt now i event).2.toList = [] := by
  have h := attempt_spec m now i event
  generalize m.attempt now i event = out at h
  cases h with
  | @fired live known alive cooled =>
    have hne : i ≠ t := by
      rintro rfl
      exact Option.some_ne_none _ (known.symm.trans hn)
    constructor
    · dsimp only
      rw [List.getElem?_set_ne hne, hn]
    · simp [Manager.fired, hne]
  | refused _ => exact ⟨hn, rfl⟩

/-- Whatever occurs, a trigger that is not known does not fire. -/
theorem newcomer_occur (h : m.Wired) (hn : m.triggers[t]? = none) (o : Occurrence) :
    Newcomer t (m.occur o) := by
  have hstirring := stirring h o
  generalize m.occur o = out at hstirring
  cases hstirring with
  | rest _ triggers silent => exact .unknown (triggers ▸ hn) (by rw [silent]; rfl)
  | @attempt _ _ now i event _ _ triggers firings =>
    obtain ⟨hunknown, hsilent⟩ := newcomer_attempt hn now i event
    exact .unknown (triggers ▸ hunknown) (firings ▸ hsilent)
  | @request now r a asking =>
    have hnot : t ∉ a.firings.map (·.trigger) := by
      intro hmem
      obtain ⟨-, ⟨live, -, hl, -⟩, -⟩ := (asking.mem_iff t).mp hmem
      exact Option.some_ne_none live (hl.symm.trans hn)
    exact .unknown ((asking.kept t hnot).trans hn) (fired_of_not_mem hnot)
  | renewal found _ triggers silent =>
    refine ⟨by rw [silent]; rfl, fun live hl => ?_⟩
    have hlength := List.getElem?_eq_none_iff.mp hn
    rw [triggers, List.getElem?_append_right (by simpa using hlength), List.getElem?_map] at hl
    obtain ⟨d, -, rfl⟩ := Option.map_eq_some_iff.mp hl
    rfl

end Newcomer

/-! ## Histories -/

section Histories

variable {m : Manager} {t : Nat} {live : LiveTrigger}

theorem Wired.occur (h : m.Wired) (o : Occurrence) : (m.occur o).1.Wired := by
  cases o with
  | act a => exact h.perform a
  | late now t event => exact wired_attempt h now t event

theorem Wired.occurAll (h : m.Wired) (os : List Occurrence) : (m.occurAll os).1.Wired := by
  induction os generalizing m with
  | nil => exact h
  | cons o rest ih => exact ih (h.occur o)

theorem occurAll_append (m : Manager) (first later : List Occurrence) :
    (m.occurAll (first ++ later)).1 = ((m.occurAll first).1.occurAll later).1 := by
  induction first generalizing m with
  | nil => rfl
  | cons o rest ih => exact ih (m.occur o).1

theorem trial?_of_known (hl : m.triggers[t]? = some live) (o : Occurrence) :
    m.trial? t o = (m.triedAt? t o).map fun now => ⟨now, live.disposed, live.admits now⟩ := by
  unfold trial?
  rw [hl]
  cases m.triedAt? t o <;> rfl

theorem trial?_of_unknown (hn : m.triggers[t]? = none) (o : Occurrence) : m.trial? t o = none := by
  unfold trial?
  rw [hn]

/-- The cooldown of a trigger takes note of each trial. -/
theorem noted_occur (h : m.Wired) (hl : m.triggers[t]? = some live) (o : Occurrence) :
    ∃ live', (m.occur o).1.triggers[t]? = some live' ∧ live'.definition = live.definition ∧
      live'.cooldown = (m.trial? t o).elim live.cooldown live.cooldown.noted := by
  obtain ⟨live', hl', hdefinition, hcooldown⟩ := (fares_occur h hl o).kept
  refine ⟨live', hl', hdefinition, ?_⟩
  rw [hcooldown, trial?_of_known hl]
  cases m.triedAt? t o <;> rfl

theorem definition_occurAll (h : m.Wired) (hl : m.triggers[t]? = some live)
    (os : List Occurrence) :
    ∃ live', (m.occurAll os).1.triggers[t]? = some live' ∧ live'.definition = live.definition := by
  induction os generalizing m live with
  | nil => exact ⟨live, hl, rfl⟩
  | cons o rest ih =>
    obtain ⟨live', hl', hdefinition, -⟩ := noted_occur h hl o
    rw [← hdefinition]
    exact ih (h.occur o) hl'

/-- The trials of a trigger are a replay of its cooldown. -/
theorem judged_trials (h : m.Wired) (hl : m.triggers[t]? = some live) (os : List Occurrence) :
    Judged live.cooldown (m.trials t os) := by
  induction os generalizing m live with
  | nil => rfl
  | cons o rest ih =>
    obtain ⟨live', hl', -, hcooldown⟩ := noted_occur h hl o
    have hrest := ih (h.occur o) hl'
    rw [hcooldown, trial?_of_known hl] at hrest
    rw [trials, trial?_of_known hl]
    cases htried : m.triedAt? t o with
    | none =>
      rw [htried] at hrest
      exact hrest
    | some now =>
      rw [htried] at hrest
      exact judged_cons.mpr ⟨rfl, hrest⟩

/-- The trials of a trigger that comes to be registered start with its cooldown unused. -/
theorem judged_newcomer (h : m.Wired) (hn : m.triggers[t]? = none) (os : List Occurrence)
    (hl : (m.occurAll os).1.triggers[t]? = some live) :
    Judged { window := live.definition.cooldown } (m.trials t os) := by
  induction os generalizing m with
  | nil => exact absurd (hn.symm.trans hl) (Option.some_ne_none live).symm
  | cons o rest ih =>
    rw [trials, trial?_of_unknown hn]
    cases hfirst : (m.occur o).1.triggers[t]? with
    | none => exact ih (h.occur o) hfirst hl
    | some first =>
      have hfresh := (newcomer_occur h hn o).fresh first hfirst
      obtain ⟨last, hlast, hdefinition⟩ := definition_occurAll (h.occur o) hfirst rest
      obtain rfl := Option.some.inj (hl.symm.trans hlast)
      have hjudged := judged_trials (h.occur o) hfirst rest
      rw [hfresh] at hjudged
      rw [hdefinition]
      exact hjudged

/-- A trigger fires when a trial of it is accepted, and at no other time. -/
theorem fired_occur (h : m.Wired) (o : Occurrence) (after : List Occurrence)
    (hl : ((m.occur o).1.occurAll after).1.triggers[t]? = some live) :
    fired t (m.occur o).2 = if (m.trial? t o).any (·.accepted) then [live.definition] else [] := by
  cases hfirst : m.triggers[t]? with
  | none =>
    rw [trial?_of_unknown hfirst]
    exact (newcomer_occur h hfirst o).silent
  | some first =>
    obtain ⟨next, hnext, hdefinition, -⟩ := noted_occur h hfirst o
    obtain ⟨last, hlast, hdefinition'⟩ := definition_occurAll (h.occur o) hnext after
    obtain rfl := Option.some.inj (hl.symm.trans hlast)
    rw [(fares_occur h hfirst o).fired, trial?_of_known hfirst, hdefinition', hdefinition]
    cases m.triedAt? t o <;> rfl

/-- The trials are made at the times of their occurrences. -/
theorem trials_times (m : Manager) (t : Nat) (os : List Occurrence) :
    ((m.trials t os).map (·.time)).Sublist (os.filterMap Occurrence.time?) := by
  induction os generalizing m with
  | nil => exact List.Sublist.slnil
  | cons o rest ih =>
    have hfirst : ((m.trial? t o).toList.map (·.time)).Sublist o.time?.toList := by
      unfold trial? triedAt?
      split
      · rename_i live now _ htried
        split at htried
        · rw [htried]
          exact List.Sublist.refl _
        · exact absurd htried (Option.some_ne_none now).symm
      · exact List.nil_sublist _
    have hcons : (o :: rest).filterMap Occurrence.time? =
        o.time?.toList ++ rest.filterMap Occurrence.time? := by
      cases htime : o.time? <;> simp [htime]
    rw [trials, List.map_append, hcons]
    exact hfirst.append (ih (m.occur o).1)

end Histories

end Manager

end Workflow
