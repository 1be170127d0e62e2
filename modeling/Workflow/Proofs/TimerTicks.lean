import Mathlib.Algebra.Order.Floor.Div
import Workflow.Proofs.Retirement
import Workflow.Proofs.WatchFirings

/- The ticks of a timer. A timer that is registered has one alarm, for its next tick, and what is
   done while it stays registered leaves it that alarm until it rings (`Ticking`). Each tick that
   is handled on time sets the next one an interval later, and the cooldown lets the first one
   through and from then on one in so many (`Paced`). So a timer that nothing else makes fire
   fires at the times that `firings_of_timer` gives, and at no others. -/
namespace Workflow

/-! ## Ticks and cooldowns -/

namespace Schedule

variable {cooldown interval n : Nat}

/-- Of how many ticks of a timer one makes it fire: of as many as the cooldown goes on for, and at
least of one. -/
def stride (cooldown interval : Nat) : Nat := max 1 (cooldown ⌈/⌉ interval)

theorem stride_pos (cooldown interval : Nat) : 0 < stride cooldown interval :=
  Nat.le_max_left 1 _

theorem stride_le_iff (hinterval : 0 < interval) (hn : 0 < n) :
    stride cooldown interval ≤ n ↔ cooldown ≤ n * interval := by
  have hone : 1 ≤ n := hn
  rw [stride, max_le_iff, ceilDiv_le_iff_le_mul hinterval, Nat.mul_comm interval n]
  exact and_iff_right hone

/-- The time of a firing of a timer that was started at a time: one interval behind the start, and
then behind so many ticks each time. -/
def firingTime (start interval cooldown j : Nat) : Nat :=
  start + (1 + j * stride cooldown interval) * interval

theorem firingTime_mono (start interval cooldown : Nat) {j k : Nat} (h : j ≤ k) :
    firingTime start interval cooldown j ≤ firingTime start interval cooldown k :=
  Nat.add_le_add_left (Nat.mul_le_mul_right _ (Nat.add_le_add_left (Nat.mul_le_mul_right _ h) 1)) _

theorem ceilMillis_whole (n : Nat) : ceilMillis (n * milli) = n := by
  unfold ceilMillis milli
  omega

/-- A tick that is handled in the millisecond in which it is due is not late. -/
theorem nextTick_of_prompt (deadline interval : Nat) :
    nextTick (ceilMillis deadline) deadline interval = deadline + interval := by
  have hprompt : ¬ deadline + leeway < ceilMillis deadline * milli := by
    unfold leeway ceilMillis milli
    omega
  rw [nextTick, if_neg hprompt]

end Schedule

/-- Whether a cooldown has let the firings through that come before a tick, with so many of them.
The ticks are counted from one. -/
structure Cooldown.Paced (c : Cooldown) (start interval tick fired : Nat) : Prop where
  positive : 0 < interval
  ahead : tick ≤ 1 + fired * Schedule.stride c.window interval
  last : (c.last = none ∧ tick = 1 ∧ fired = 0) ∨
    ∃ before, fired = before + 1 ∧ 1 + before * Schedule.stride c.window interval < tick ∧
      c.last = some (Schedule.firingTime start interval c.window before)

section Paced

variable {c : Cooldown} {start interval tick fired : Nat}

theorem Cooldown.paced_unused (hinterval : 0 < interval) (start window : Nat) :
    Cooldown.Paced { window } start interval 1 0 :=
  ⟨hinterval, Nat.le_add_right 1 _, .inl ⟨rfl, rfl, rfl⟩⟩

theorem Cooldown.Paced.le_firingTime (h : c.Paced start interval tick fired) :
    start + tick * interval ≤ Schedule.firingTime start interval c.window fired :=
  Nat.add_le_add_left (Nat.mul_le_mul_right _ h.ahead) _

/-- A tick is let through when it is the one that the next firing is due at. -/
theorem Cooldown.Paced.accepts_iff (h : c.Paced start interval tick fired) :
    c.accepts (start + tick * interval) = true ↔
      tick = 1 + fired * Schedule.stride c.window interval := by
  rw [Manager.accepts_iff]
  rcases h.last with ⟨hlast, rfl, rfl⟩ | ⟨before, rfl, hbefore, hlast⟩
  · simp [hlast]
  · have hahead := h.ahead
    obtain ⟨since, hpos, rfl⟩ : ∃ since, 0 < since ∧
        tick = 1 + before * Schedule.stride c.window interval + since :=
      ⟨_, Nat.sub_pos_of_lt hbefore, (Nat.add_sub_of_le (Nat.le_of_lt hbefore)).symm⟩
    have hwait : start + (1 + before * Schedule.stride c.window interval + since) * interval -
        Schedule.firingTime start interval c.window before = since * interval := by
      rw [Schedule.firingTime, Nat.add_mul _ since, ← Nat.add_assoc, Nat.add_sub_cancel_left]
    rw [Nat.succ_mul] at hahead ⊢
    -- as many ticks have gone by as the cooldown asks for, or fewer
    have hstride : Schedule.stride c.window interval ≤ since ↔ c.window ≤ since * interval :=
      Schedule.stride_le_iff h.positive hpos
    simp only [hlast, Option.some.injEq, forall_eq', hwait, ← hstride]
    omega

/-- After the firing of a tick. -/
theorem Cooldown.Paced.let_through (h : c.Paced start interval tick fired)
    (htick : tick = 1 + fired * Schedule.stride c.window interval) :
    Cooldown.Paced { c with last := some (start + tick * interval) } start interval (tick + 1)
      (fired + 1) := by
  have hpos := Schedule.stride_pos c.window interval
  refine ⟨h.positive, ?_, .inr ⟨fired, rfl, ?_, ?_⟩⟩
  · dsimp only
    rw [Nat.succ_mul]
    omega
  · exact htick ▸ Nat.lt_succ_self tick
  · rw [htick]
    rfl

/-- After a tick that came too soon. -/
theorem Cooldown.Paced.held_back (h : c.Paced start interval tick fired)
    (htick : tick ≠ 1 + fired * Schedule.stride c.window interval) :
    c.Paced start interval (tick + 1) fired := by
  refine ⟨h.positive, Nat.lt_of_le_of_ne h.ahead htick, ?_⟩
  rcases h.last with ⟨-, rfl, rfl⟩ | ⟨before, hfired, hbefore, hlast⟩
  · exact absurd (by simp) htick
  · exact .inr ⟨before, hfired, Nat.lt_succ_of_lt hbefore, hlast⟩

end Paced

/-! ## Courses on time -/

/-- A fold that keeps what it has or takes what it comes to ends with one of them. -/
theorem exists_foldl_eq_some {α : Type} {f : Option α → α → Option α}
    (hf : ∀ best x, f (some best) x = some best ∨ f (some best) x = some x) (best : α)
    (xs : List α) : ∃ b ∈ best :: xs, xs.foldl f (some best) = some b := by
  induction xs generalizing best with
  | nil => exact ⟨best, List.mem_singleton_self best, rfl⟩
  | cons x xs ih =>
    rw [List.foldl_cons]
    rcases hf best x with hkept | htaken
    · obtain ⟨b, hb, hfold⟩ := ih best
      refine ⟨b, ?_, by rw [hkept, hfold]⟩
      rcases List.mem_cons.mp hb with rfl | hb
      · exact List.mem_cons_self
      · exact List.mem_cons_of_mem best (List.mem_cons_of_mem x hb)
    · obtain ⟨b, hb, hfold⟩ := ih x
      exact ⟨b, List.mem_cons_of_mem best hb, by rw [htaken, hfold]⟩

/-- Of alarms that are due one rings first. -/
theorem Alarms.first?_spec {κ α : Type} (alarms : Alarms κ α) (time : Nat) :
    (alarms.first? time = none ∧ ∀ a ∈ alarms.live, time < a.due) ∨
      ∃ a ∈ alarms.live, alarms.first? time = some a ∧ a.due ≤ time := by
  have hmem : ∀ {a}, a ∈ alarms.live.filter (·.due ≤ time) ↔ a ∈ alarms.live ∧ a.due ≤ time := by
    simp
  unfold first?
  generalize alarms.live.filter (·.due ≤ time) = due at hmem
  cases due with
  | nil =>
    refine .inl ⟨rfl, fun a ha => Nat.lt_of_not_le fun hdue => ?_⟩
    exact List.not_mem_nil (hmem.mpr ⟨ha, hdue⟩)
  | cons a rest =>
    rw [List.foldl_cons]
    refine .inr ((exists_foldl_eq_some ?_ a rest).imp fun b hb =>
      ⟨(hmem.mp hb.1).1, hb.2, (hmem.mp hb.1).2⟩)
    intro best x
    dsimp only
    split
    · exact .inr rfl
    · exact .inl rfl

namespace Manager

/-- A course from a time on in which every alarm of a trigger rings when it is due, until a limit.
Anything may be done in between that does not make the trigger fire. -/
inductive Timely (t limit : Nat) : Manager → Nat → List Act → Prop where
  | done {m : Manager} {now : Nat} (time : now ≤ limit)
      (none_left : ∀ a ∈ (m.alarmsOf t).live, limit < a.due) : Timely t limit m now []
  | ring {m : Manager} {now : Nat} {a : Alarm AlarmKey AlarmTask} {rest : List Act}
      (timestamp : String) (alarm : a ∈ (m.alarmsOf t).live) (time : now ≤ a.due)
      (after : Timely t limit (m.perform (.ring a.due timestamp a.number)).1 a.due rest) :
      Timely t limit m now (.ring a.due timestamp a.number :: rest)
  | act {m : Manager} {now : Nat} {a : Act} {rest : List Act} (time : now ≤ a.timeFrom now)
      (none_late : ∀ x ∈ (m.alarmsOf t).live, a.timeFrom now ≤ x.due)
      (unrung : ∀ now timestamp alarm, a = .ring now timestamp alarm → t ∉ m.tries (.act a))
      (silent : fired t (m.perform a).2 = [])
      (after : Timely t limit (m.perform a).1 (a.timeFrom now) rest) :
      Timely t limit m now (a :: rest)

theorem Timely.le_limit {t limit now : Nat} {m : Manager} {acts : List Act}
    (h : Timely t limit m now acts) : now ≤ limit := by
  induction h with
  | done time => exact time
  | ring timestamp alarm time after ih => exact Nat.le_trans time ih
  | act time none_late unrung silent after ih => exact Nat.le_trans time ih

/-- What is done in the order of the alarms is done on time. -/
theorem Punctual.timely {t limit now : Nat} {m : Manager} {acts : List Act} {live : LiveTrigger}
    (h : Punctual t limit m now acts) (hwired : m.Wired) (hl : m.triggers[t]? = some live) :
    Timely t limit m now acts := by
  have hlate : ∀ {m : Manager} {time : Nat}, (m.alarmsOf t).first? time = none →
      ∀ a ∈ (m.alarmsOf t).live, time < a.due := by
    intro m time hnone
    rcases (m.alarmsOf t).first?_spec time with ⟨-, hlate⟩ | ⟨a, -, hfirst, -⟩
    · exact hlate
    · exact absurd (hfirst.symm.trans hnone) (Option.some_ne_none a)
  induction h generalizing live with
  | done time none_due => exact .done time (hlate none_due)
  | @ring m now a rest timestamp time first after ih =>
    obtain ⟨live', hl', -⟩ := noted_occur hwired hl (.act (.ring a.due timestamp a.number))
    rcases (m.alarmsOf t).first?_spec a.due with ⟨hnone, -⟩ | ⟨b, hb, hfirst, -⟩
    · exact absurd (first.symm.trans hnone) (Option.some_ne_none a)
    · obtain rfl := Option.some.inj (hfirst.symm.trans first)
      exact .ring timestamp hb time (ih (hwired.perform _) hl')
  | @act m now a rest time none_due untried after ih =>
    obtain ⟨live', hl', -⟩ := noted_occur hwired hl (.act a)
    have hsilent : fired t (m.perform a).2 = _ := (fares_occur hwired hl (.act a)).fired
    rw [triedAt?, if_neg untried] at hsilent
    exact .act time (fun x hx => Nat.le_of_lt (hlate none_due x hx)) (fun _ _ _ _ => untried)
      hsilent (ih (hwired.perform a) hl')

/-! ## The alarm of a timer -/

/-- A timer that is registered, and whose one alarm is for its next tick. -/
structure Ticking (m : Manager) (t : Nat) (live : LiveTrigger) (interval deadline : Nat) :
    Prop where
  wired : m.Wired
  known : m.triggers[t]? = some live
  registered : t ∈ m.table
  timer : live.definition.spec = .cron interval
  alarms : (m.alarmsOf t).settings =
    [(.tick t, Schedule.ceilMillis deadline, .tick t deadline)]

section Ticking

variable {m : Manager} {t interval deadline : Nat} {live : LiveTrigger}

theorem Ticking.defined (h : m.Ticking t live interval deadline) :
    m.definition? t = some live.definition := by
  rw [definition?_eq_some_iff]
  exact ⟨h.registered, live.disposed, by rw [standing?, h.known]; rfl⟩

theorem Ticking.alarm (h : m.Ticking t live interval deadline) :
    ∃ a, (m.alarmsOf t).live = [a] ∧ a.due = Schedule.ceilMillis deadline ∧
      a.item = .tick t deadline := by
  obtain ⟨a, hlive, ha⟩ := List.map_eq_singleton_iff.mp h.alarms
  simp only [Prod.mk.injEq] at ha
  exact ⟨a, hlive, ha.2⟩

/-- The next tick, on time, tries the timer, and sets the one behind it. -/
theorem Ticking.ring (h : m.Ticking t live interval deadline) {a : Alarm AlarmKey AlarmTask}
    (hlive : (m.alarmsOf t).live = [a]) (hitem : a.item = .tick t deadline) (timestamp : String) :
    (m.perform (.ring a.due timestamp a.number)).2 =
        (if live.cooldown.accepts a.due then
          [⟨t, live.definition, tickEvent interval timestamp⟩] else []) ∧
      (m.perform (.ring a.due timestamp a.number)).1.Ticking t
        { live with cooldown := (live.cooldown.acquire a.due).1 } interval
        (deadline + interval) := by
  have hfound := h.wired.sound.find?_of_mem
    (mem_alarmsOf.mp (hlive ▸ List.mem_singleton_self a)).1
  have hspec : (m.definition? t).map TriggerDefinition.spec = some (.cron interval) := by
    rw [h.defined, Option.map_some, h.timer]
  have hnext : Schedule.nextTick a.due deadline interval = deadline + interval := by
    obtain ⟨b, hb, hdue, -⟩ := h.alarm
    obtain rfl : a = b := List.singleton_inj.mp (hlive.symm.trans hb)
    rw [hdue, Schedule.nextTick_of_prompt]
  have hring : m.ring a.due timestamp a.number =
      ({ (m.attempt a.due t (tickEvent interval timestamp)).1 with
          alarms := (m.alarms.drop a.number).set (.tick t)
            (Schedule.ceilMillis (deadline + interval)) (.tick t (deadline + interval)) },
        .ofFiring? (m.attempt a.due t (tickEvent interval timestamp)).2) := by
    have hspec' : (definition? { m with alarms := m.alarms.drop a.number } t).map
        TriggerDefinition.spec = some (.cron interval) := hspec
    simp only [Manager.ring, hfound, hitem, hspec', attempt_with_alarms, setTick, hnext]
  obtain ⟨hknown, hfiring⟩ := attempt_of_alive h.known (h.wired.undisposed h.known h.registered)
    a.due (tickEvent interval timestamp)
  refine ⟨?_, ?_⟩
  · show (m.ring a.due timestamp a.number).2.firing?.toList = _
    rw [hring, Ring.firing?_ofFiring?, hfiring]
    unfold Cooldown.acquire
    cases live.cooldown.accepts a.due <;> rfl
  · constructor
    case wired => exact h.wired.perform _
    case known =>
      show (m.ring a.due timestamp a.number).1.triggers[t]? = _
      rw [hring]
      exact hknown
    case registered =>
      show t ∈ (m.ring a.due timestamp a.number).1.table
      rw [ring_frame]
      exact h.registered
    case timer => exact h.timer
    case alarms =>
      show ((m.ring a.due timestamp a.number).1.alarmsOf t).settings = _
      rw [hring]
      show (((m.alarms.drop a.number).set _ _ _).cancel (AlarmKey.foreignTo t)).settings = _
      rw [Alarms.settings_cancel_set _ (by simp [AlarmKey.foreignTo, AlarmKey.trigger?]),
        Alarms.settings, h.wired.sound.cancel_drop_first hlive]
      rfl

/-- What neither rings the alarm nor makes the timer fire leaves all as it is, as long as the timer
stays registered. -/
theorem Ticking.other (h : m.Ticking t live interval deadline) {a : Act}
    (unrung : ∀ now timestamp alarm, a = .ring now timestamp alarm → t ∉ m.tries (.act a))
    (silent : fired t (m.perform a).2 = []) (ht : t ∈ (m.perform a).1.table) :
    (m.perform a).1.Ticking t live interval deadline := by
  have hwired := h.wired.perform a
  constructor
  case wired => exact hwired
  case known =>
    obtain ⟨⟨live', hl', hdefinition, hcooldown⟩, hfired⟩ := fares_occur h.wired h.known (.act a)
    have hl' : (m.perform a).1.triggers[t]? = some live' := hl'
    -- it may have been tried, but as it has not fired its cooldown is as it was
    have hrefused : (m.triedAt? t (.act a)).any live.admits = false := by
      have hfired : fired t (m.perform a).2 = _ := hfired
      rw [silent] at hfired
      cases hany : (m.triedAt? t (.act a)).any live.admits with
      | false => rfl
      | true => simp [hany] at hfired
    rw [hrefused] at hcooldown
    have hcooldown : live'.cooldown = live.cooldown := hcooldown
    have hdisposed : live'.disposed = live.disposed :=
      (hwired.undisposed hl' ht).trans (h.wired.undisposed h.known h.registered).symm
    have hsame : live' = live := by
      cases live
      cases live'
      rw [LiveTrigger.mk.injEq]
      exact ⟨hdefinition, hcooldown, hdisposed⟩
    rw [hl', hsame]
  case registered => exact ht
  case timer => exact h.timer
  case alarms =>
    rw [← h.alarms]
    by_cases hchange : ∃ now path kind, a = .change now path kind
    · obtain ⟨now, path, kind, rfl⟩ := hchange
      have hwatch : m.watchOf? path kind t = none := by
        unfold watchOf?
        rw [h.defined, Option.map_some, h.timer]
      have halarms := alarmsOf_change h.wired h.registered now path kind
      rw [hwatch] at halarms
      exact halarms
    · have hlive := alarmsOf_perform h.wired h.known
        (fun now path kind heq => hchange ⟨now, path, kind, heq⟩) unrung ht
      exact congrArg (List.map _) hlive

/-! ## Registrations -/

theorem alarmsOf_startTimers {ds : List (TriggerDefinition × Nat)} (ht : t ∉ ds.map (·.2))
    (now : Nat) (m : Manager) :
    ((ds.foldl (startTimer now) m).alarmsOf t).live = (m.alarmsOf t).live := by
  induction ds generalizing m with
  | nil => rfl
  | cons d rest ih =>
    rw [List.map_cons, List.mem_cons, not_or] at ht
    rw [List.foldl_cons, ih ht.2]
    by_cases hcron : d.1.kind = .cron
    · obtain ⟨deadline, hset⟩ := startTimer_of_cron now m hcron
      rw [hset]
      exact Alarms.cancel_set_of_other _
        (by simpa [AlarmKey.foreignTo, AlarmKey.trigger?] using Ne.symm ht.1) _ _
    · rw [startTimer_of_other now m hcron]

/-- A timer that is registered has its first tick one interval later. -/
theorem alarmsOf_install {d : TriggerDefinition} {found : List TriggerDefinition}
    (hnone : (m.alarmsOf t).live = []) (hd : (d, t) ∈ found.zipIdx m.triggers.length)
    (timer : d.spec = .cron interval) (now : Nat) :
    ((m.install now found).alarmsOf t).settings =
      [(.tick t, Schedule.ceilMillis (now * Schedule.milli + interval),
        .tick t (now * Schedule.milli + interval))] := by
  -- the trigger has one place among those that are registered
  obtain ⟨before, after, hsplit⟩ := List.append_of_mem hd
  have hnumbers : ((found.zipIdx m.triggers.length).map (·.2)).Nodup := by
    rw [List.zipIdx_map_snd]
    exact List.nodup_range' ..
  rw [hsplit, List.map_append, List.map_cons, List.nodup_append, List.nodup_cons] at hnumbers
  have hbefore : t ∉ before.map (·.2) := fun hmem =>
    hnumbers.2.2 t hmem t List.mem_cons_self rfl
  have hafter : t ∉ after.map (·.2) := hnumbers.2.1.1
  unfold install
  rw [hsplit, List.foldl_append, List.foldl_cons, Alarms.settings,
    alarmsOf_startTimers hafter now]
  generalize hfirst : before.foldl (startTimer now) _ = first
  have hstart : startTimer now first (d, t) =
      first.setTick t (now * Schedule.milli + interval) := by
    simp only [startTimer, timer]
  have hempty : (first.alarmsOf t).live = [] := by
    rw [← hfirst, alarmsOf_startTimers hbefore now]
    exact hnone
  rw [hstart]
  show (((first.alarms).set _ _ _).cancel (AlarmKey.foreignTo t)).settings = _
  rw [Alarms.settings_cancel_set _ (by simp [AlarmKey.foreignTo, AlarmKey.trigger?])]
  show ((first.alarmsOf t).live.map _).filter _ ++ _ = _
  rw [hempty]
  rfl

/-- A timer that a pass registers has its first tick one interval later. -/
theorem alarmsOf_pass (h : m.Wired) (unknown : m.triggers[t]? = none) {now : Nat} {tree : FileTree}
    (known : (m.pass now tree).1.triggers[t]? = some live)
    (timer : live.definition.spec = .cron interval) :
    ((m.pass now tree).1.alarmsOf t).settings =
      [(.tick t, Schedule.ceilMillis (now * Schedule.milli + interval),
        .tick t (now * Schedule.milli + interval))] := by
  have hlength : m.clear.triggers.length ≤ t := by
    simpa [clear] using List.getElem?_eq_none_iff.mp unknown
  unfold pass at known ⊢
  dsimp only at known ⊢
  split at known
  · exact absurd (List.getElem?_eq_none_iff.mpr hlength) (by simp [known])
  · rename_i hgoing
    rw [if_neg hgoing]
    rw [(synced _).frame.1] at known ⊢
    have hstanding : (m.clear.install now (m.clear.declared tree)).standing? t =
        some (live.definition, live.disposed) := by
      rw [standing?, show (m.clear.install now _).triggers[t]? = some live from known]
      rfl
    exact alarmsOf_install ((wired_clear h).alarmsOf_eq_nil List.not_mem_nil)
      ((standing?_install_new m.clear now _ hlength _ _).mp hstanding).1 timer now

/-- A timer that a refresh registers is ready for its first tick. -/
theorem ticking_registered (h : m.Wired) (unknown : m.triggers[t]? = none) {now place : Nat}
    {tree : FileTree} {bindable : Bool}
    (known : (m.perform (.proceed now tree bindable place)).1.triggers[t]? = some live)
    (timer : live.definition.spec = .cron interval) :
    live = .ofDefinition live.definition ∧
      (m.perform (.proceed now tree bindable place)).1.Ticking t live interval
        (now * Schedule.milli + interval) := by
  have hfresh := (newcomer_occur h unknown (.act (.proceed now tree bindable place))).fresh live known
  have hwired := h.perform (.proceed now tree bindable place)
  refine ⟨hfresh, hwired, known, ?_, timer, ?_⟩
  · refine hwired.retired t live.definition ?_
    rw [standing?, known, hfresh]
    rfl
  · show ((m.proceedAt now tree bindable place).alarmsOf t).settings = _
    have known : (m.proceedAt now tree bindable place).triggers[t]? = some live := known
    have hother : ∀ m' : Manager, m'.triggers = m.triggers → m'.triggers[t]? = some live → False :=
      fun m' hsame hl => Option.some_ne_none live (hl.symm.trans (hsame ▸ unknown))
    unfold proceedAt at known ⊢
    split at known
    · exact (hother _ rfl known).elim
    · rename_i p hp
      cases p with
      | ready => exact alarmsOf_pass h unknown known timer
      | stopping port => cases port <;> exact (hother _ rfl known).elim
      | binding port => cases bindable <;> exact (hother _ rfl known).elim
      | passed =>
        refine (hother _ ?_ known).elim
        unfold proceed endPass
        dsimp only
        split <;> rfl

/-! ## Courses -/

/-- What is true of the firings of a timer over a course that is over at a limit, when it was
registered at a time: they come one interval later and then in even steps, each of a tick. -/
structure FiresEvenly (m : Manager) (t : Nat) (d : TriggerDefinition) (start interval limit : Nat)
    (acts : List Act) : Prop where
  times : ∃ n,
    (∀ j, j < n ↔ start + (1 + j * Schedule.stride d.cooldown interval) * interval ≤ limit) ∧
    (m.firingsOf t acts).map (·.1) = (List.range n).map fun j =>
      some (start + (1 + j * Schedule.stride d.cooldown interval) * interval)
  ticks : ∀ f ∈ m.firingsOf t acts, ∃ timestamp,
    f.2 = ⟨t, d, tickEvent (interval * Schedule.milli) timestamp⟩

/-- Whether firings of a timer come at its times until a limit, when so many are behind it, and each
is of a tick. -/
structure Evenly (t : Nat) (d : TriggerDefinition) (window start interval limit fired : Nat)
    (firings : List (Option Nat × Firing)) : Prop where
  times : ∃ n, (∀ j, j < n ↔ Schedule.firingTime start interval window (fired + j) ≤ limit) ∧
    firings.map (·.1) = (List.range n).map fun j =>
      some (Schedule.firingTime start interval window (fired + j))
  ticks : ∀ f ∈ firings, ∃ timestamp,
    f.2 = ⟨t, d, tickEvent (interval * Schedule.milli) timestamp⟩

section Evenly

variable {d : TriggerDefinition} {window start limit fired : Nat}

/-- No more are to come when the next one is behind the limit. -/
theorem evenly_nil (late : limit < Schedule.firingTime start interval window fired) :
    Evenly t d window start interval limit fired [] := by
  refine ⟨⟨0, fun j => iff_of_false (Nat.not_lt_zero j) (Nat.not_le_of_lt ?_), rfl⟩,
    fun f hf => absurd hf List.not_mem_nil⟩
  exact Nat.lt_of_lt_of_le late (Schedule.firingTime_mono _ _ _ (Nat.le_add_right fired j))

/-- One more comes before those that come after it. -/
theorem Evenly.cons {firings : List (Option Nat × Firing)}
    (h : Evenly t d window start interval limit (fired + 1) firings)
    (intime : Schedule.firingTime start interval window fired ≤ limit) (timestamp : String) :
    Evenly t d window start interval limit fired
      ((some (Schedule.firingTime start interval window fired),
        ⟨t, d, tickEvent (interval * Schedule.milli) timestamp⟩) :: firings) := by
  obtain ⟨n, hn, htimes⟩ := h.times
  refine ⟨⟨n + 1, fun j => ?_, ?_⟩, ?_⟩
  · cases j with
    | zero => exact iff_of_true (Nat.succ_pos n) intime
    | succ j =>
      rw [Nat.add_lt_add_iff_right, hn, Nat.add_right_comm]
      exact Iff.rfl
  · rw [List.range_succ_eq_map, List.map_cons, htimes]
    simp [Nat.add_right_comm, Nat.add_assoc]
  · exact List.forall_mem_cons.mpr ⟨⟨timestamp, rfl⟩, h.ticks⟩

end Evenly

/-- The firings of a timer whose next tick is given, when so many firings are behind it. -/
theorem Ticking.course {start tick fired limit now : Nat} {acts : List Act}
    (h : m.Ticking t live (interval * Schedule.milli)
      ((start + tick * interval) * Schedule.milli))
    (hpaced : live.cooldown.Paced start interval tick fired)
    (htimely : Timely t limit m now acts) (ht : t ∈ (m.course acts).1.table) :
    Evenly t live.definition live.cooldown.window start interval limit fired
      (m.firingsOf t acts) := by
  -- by induction on the course; the next tick and the number of firings move on with each tick
  induction htimely generalizing live tick fired with
  | done time none_left =>
    obtain ⟨a, hlive, hdue, -⟩ := h.alarm
    have hlate := none_left a (hlive ▸ List.mem_singleton_self a)
    rw [hdue, Schedule.ceilMillis_whole] at hlate
    exact evenly_nil (Nat.lt_of_lt_of_le hlate hpaced.le_firingTime)
  | @ring m now a rest timestamp alarm time after ih =>
    obtain ⟨b, hlive, hdue, hitem⟩ := h.alarm
    obtain rfl := List.mem_singleton.mp (hlive ▸ alarm)
    rw [Schedule.ceilMillis_whole] at hdue
    have hdeadline : (start + tick * interval) * Schedule.milli + interval * Schedule.milli =
        (start + (tick + 1) * interval) * Schedule.milli := by
      rw [← Nat.add_mul, Nat.succ_mul, Nat.add_assoc]
    obtain ⟨hfirings, hnext⟩ := h.ring hlive hitem timestamp
    rw [hdeadline] at hnext
    have haccepts := hpaced.accepts_iff
    rw [← hdue] at haccepts
    by_cases htick : tick = 1 + fired * Schedule.stride live.cooldown.window interval
    · have hacquire : (live.cooldown.acquire a.due).1 =
          { live.cooldown with last := some (start + tick * interval) } := by
        rw [Cooldown.acquire, if_pos (haccepts.mpr htick), hdue]
      rw [hacquire] at hnext
      have hlater := ih hnext (hpaced.let_through htick) ht
      have hnow : a.due = Schedule.firingTime start interval live.cooldown.window fired := by
        rw [hdue, htick, Schedule.firingTime]
      rw [firingsOf, hfirings, if_pos (haccepts.mpr htick)]
      simpa [Occurrence.time?, hnow] using hlater.cons (hnow ▸ after.le_limit) timestamp
    · have hrefused : live.cooldown.accepts a.due = false :=
        Bool.eq_false_iff.mpr fun hyes => htick (haccepts.mp hyes)
      have hacquire : (live.cooldown.acquire a.due).1 = live.cooldown := by
        rw [Cooldown.acquire, hrefused]
        rfl
      rw [hacquire] at hnext
      rw [firingsOf, hfirings, hrefused]
      exact ih hnext (hpaced.held_back htick) ht
  | @act m now a rest time none_late unrung silent after ih =>
    have hstays : t ∈ (m.perform a).1.table := by
      obtain ⟨live', hl', -⟩ := noted_occur h.wired h.known (.act a)
      exact mem_table_of_course (h.wired.perform a) hl' ht
    have hquiet : (m.perform a).2.filter (·.trigger == t) = [] := List.map_eq_nil_iff.mp silent
    rw [firingsOf, hquiet]
    exact ih (h.other unrung silent hstays) hpaced ht

/-- There is such a course, until any time. -/
theorem Ticking.timely {due limit now : Nat} (positive : 0 < interval)
    (h : m.Ticking t live (interval * Schedule.milli) (due * Schedule.milli)) (hdue : now ≤ due)
    (hlimit : now ≤ limit) : ∃ acts, Timely t limit m now acts ∧ t ∈ (m.course acts).1.table := by
  -- by induction on what is left until the limit
  induction hleft : limit + 1 - due using Nat.strong_induction_on generalizing m live due now with
  | h left ih =>
    obtain ⟨a, hlive, hwhen, hitem⟩ := h.alarm
    rw [Schedule.ceilMillis_whole] at hwhen
    by_cases hlate : limit < due
    · refine ⟨[], .done hlimit fun b hb => ?_, h.registered⟩
      rw [hlive, List.mem_singleton] at hb
      rwa [hb, hwhen]
    · have hnext := (h.ring hlive hitem "").2
      rw [← Nat.add_mul, hwhen] at hnext
      obtain ⟨acts, htimely, ht⟩ := ih (limit + 1 - (due + interval)) (by omega) hnext
        (Nat.le_add_right due interval) (Nat.le_of_not_lt hlate) rfl
      rw [← hwhen] at htimely ht hdue
      exact ⟨_, .ring "" (hlive ▸ List.mem_singleton_self a) hdue htimely, ht⟩

end Ticking

/-- **The firings of a timer.** When a timer is registered it does not fire. As long as it stays
registered, its ticks are handled when they are due and nothing else makes it fire, it fires one
interval later and then at each so many-th tick, as many as its cooldown goes on for. And there
is such a course until any time. -/
theorem firings_of_timer (settings : TriggerSettings) (earlier : List Occurrence)
    {m : Manager} (reached : ((new settings).occurAll earlier).1 = m) (t now place : Nat)
    (tree : FileTree) (bindable : Bool) {first : Manager} {firings : List Firing}
    (registering : m.perform (.proceed now tree bindable place) = (first, firings))
    (live : LiveTrigger) (interval : Nat) (unknown : m.triggers[t]? = none)
    (known : first.triggers[t]? = some live)
    (timer : live.definition.spec = .cron (interval * Schedule.milli))
    (positive : 0 < interval) :
    firings = [] ∧
      (∀ limit acts, Timely t limit first now acts → t ∈ (first.course acts).1.table →
        first.FiresEvenly t live.definition now interval limit acts) ∧
      (∀ limit, now ≤ limit →
        ∃ acts, Timely t limit first now acts ∧ t ∈ (first.course acts).1.table) ∧
      ∀ s : Rehearsal.WatchStage, s.Invokes := by
  have hwired : m.Wired := reached ▸ (wired_new settings).occurAll earlier
  obtain ⟨rfl, rfl⟩ : (m.perform (.proceed now tree bindable place)).1 = first ∧ [] = firings :=
    Prod.mk.inj registering
  obtain ⟨hfresh, hticking⟩ := ticking_registered hwired unknown known timer
  have hfirst : now * Schedule.milli + interval * Schedule.milli =
      (now + 1 * interval) * Schedule.milli := by
    rw [Nat.one_mul, Nat.add_mul]
  rw [hfirst] at hticking
  refine ⟨rfl, fun limit acts htimely ht => ?_, fun limit hlimit => ?_,
    Rehearsal.WatchStage.invokes⟩
  · have hcooldown : live.cooldown = { window := live.definition.cooldown } :=
      congrArg LiveTrigger.cooldown hfresh
    have hpaced := Cooldown.paced_unused positive now live.definition.cooldown
    rw [← hcooldown] at hpaced
    obtain ⟨⟨n, hn, htimes⟩, hticks⟩ := hticking.course hpaced htimely ht
    simp only [hcooldown, Nat.zero_add] at hn htimes
    exact ⟨⟨n, hn, htimes⟩, hticks⟩
  · exact hticking.timely positive (Nat.le_add_right now _) hlimit

/-- A manager that has registered a timer of a minute, five seconds after the start. -/
def tidying : Manager :=
  (((new leisurely).occurAll [.act .start]).1.perform (.proceed 5000 tidyTree true 0)).1

/-- The first three ticks of the timer. -/
def threeTicks : List Act :=
  [.ring 65000 "" 0, .ring 125000 "" 1, .ring 185000 "" 2]

/-- It cools down for a minute and a half, so it fires at the first tick and at the third. -/
theorem tidied_fires_at_odd_ticks :
    (tidying.firingsOf 0 threeTicks).map (·.1) = [some 65000, some 185000] := by
  -- one evaluation, so that the document is read once
  obtain ⟨hknown, hpunctual, hregistered⟩ :
      tidying.triggers[0]? = some (.ofDefinition tidied.definition) ∧
        tidying.keepsTime 0 200000 5000 threeTicks = true ∧
        0 ∈ (tidying.course threeTicks).1.table := by decide +kernel
  have hwired : tidying.Wired :=
    ((wired_new leisurely).occurAll [.act .start]).perform (.proceed 5000 tidyTree true 0)
  have htimely := (punctual_of_keepsTime hpunctual).timely hwired hknown
  have hregistering : ((new leisurely).occurAll [.act .start]).1.perform
      (.proceed 5000 tidyTree true 0) = (tidying, []) := rfl
  have hfires := (firings_of_timer leisurely [.act .start] rfl 0 5000 0 tidyTree true
    hregistering _ 60000 rfl hknown rfl (by decide)).2.1 200000 threeTicks htimely hregistered
  obtain ⟨n, hn, htimes⟩ := hfires.times
  have hstride : Schedule.stride tidied.definition.cooldown 60000 = 2 := by decide
  rw [LiveTrigger.ofDefinition, hstride] at hn htimes
  obtain rfl : n = 2 := by
    have hsecond := hn 1
    have hthird := hn 2
    omega
  exact htimes

end Manager

end Workflow
