import Workflow.Proofs.FreshListings
import Workflow.Proofs.RefreshAlarms

/- Refreshes after changes of documents. Of the reports of one burst the last one is followed by
   a refresh, when the delay is over, and no report disturbs a refresh that has begun
   (`Manager.FollowsDocuments`). When the last report of all has been followed by its refresh,
   and a pass of that has begun, what is registered is what the documents declare
   (`Manager.EndsUpToDate`). -/
namespace Workflow

/-! ## The turns of the alarm -/

namespace Rehearsal.WatchStage

theorem await_keeps (s : WatchStage) (a : Alarm AlarmKey AlarmTask) :
    (s.await a).now = s.now ∧ ∀ x ∈ s.sleeping, x ∈ (s.await a).sleeping := by
  unfold await errands
  split
  · exact ⟨rfl, fun x hx => hx⟩
  · exact ⟨rfl, fun x hx => List.mem_append_left _ hx⟩

/-- Every alarm that has been set for later has its turn. -/
theorem mem_sleeping_manage {s : WatchStage} {m : Manager} {a : Alarm AlarmKey AlarmTask}
    (ha : a ∈ m.alarms.live) (fresh : s.world.manager.alarms.next ≤ a.number)
    (later : s.now < a.due) : (a.due, .errand (.ring a.number)) ∈ (s.manage m).sleeping := by
  have hkept : ∀ (alarms : List (Alarm AlarmKey AlarmTask)) (s : WatchStage),
      (∀ x ∈ s.sleeping, x ∈ (alarms.foldl await s).sleeping) ∧
        ∀ a ∈ alarms, s.now < a.due →
          (a.due, .errand (.ring a.number)) ∈ (alarms.foldl await s).sleeping := by
    intro alarms
    induction alarms with
    | nil => exact fun s => ⟨fun x hx => hx, fun a ha => absurd ha List.not_mem_nil⟩
    | cons b rest ih =>
      intro s
      obtain ⟨hnow, hsleeping⟩ := await_keeps s b
      obtain ⟨hold, hnew⟩ := ih (s.await b)
      refine ⟨fun x hx => hold x (hsleeping x hx), fun a ha hlate => ?_⟩
      rcases List.mem_cons.mp ha with rfl | ha
      · refine hold _ ?_
        unfold await
        rw [if_neg (Nat.not_le.mpr hlate)]
        exact List.mem_append_right _ List.mem_cons_self
      · exact hnew a ha (hnow.symm ▸ hlate)
  exact (hkept _ _).2 a (List.mem_filter.mpr ⟨ha, by simpa using fresh⟩) later

/-- How a stage follows the documents. -/
structure FollowsDocuments (s : WatchStage) : Prop where
  /-- When a change of a document is reported, the alarm gets its turn at the end of the delay. -/
  change : ∀ path kind, s.world.manager.concerns path = true →
    0 < s.world.manager.settings.refreshDebounce →
    (s.call (.change path kind)).1.world.manager = s.world.manager.change s.now path kind ∧
      (s.now + s.world.manager.settings.refreshDebounce,
        .errand (.ring s.world.manager.alarms.next)) ∈ (s.call (.change path kind)).1.sleeping
  /-- A refresh that is asked for then is an errand of its own, behind all that is due. -/
  ring : ∀ number time, s.world.manager.asked? (.ring s.now s.world.timestamp number) = some time →
    ∃ due, (s.run (.ring number)).1.ready = due ++ [.errand .refresh]
  /-- The errand asks for it and carries it out. -/
  refresh : (s.run .refresh).1.world.manager =
    s.world.manager.refresh s.now s.world.tree
      (Http.isLocalHost s.world.manager.settings.webhookHost)

theorem followsDocuments (s : WatchStage) : s.FollowsDocuments := by
  constructor
  case change =>
    intro path kind hconcerns hpositive
    refine ⟨by simp only [call, manage_world], ?_⟩
    let alarm : Alarm AlarmKey AlarmTask := ⟨s.world.manager.alarms.next, .refresh,
      s.now + s.world.manager.settings.refreshDebounce, .refresh⟩
    have halarm : alarm ∈ (s.world.manager.change s.now path kind).refreshAlarm.live := by
      unfold Manager.change
      dsimp only
      rw [if_pos hconcerns, Manager.refreshAlarm_scheduleChanges]
      simp [Manager.refreshAlarm, Manager.scheduleRefresh, Alarms.set, Alarms.cancel, alarm]
    exact mem_sleeping_manage (List.mem_of_mem_filter halarm) (Nat.le_refl _)
      (Nat.lt_add_of_pos_right hpositive)
  case ring =>
    intro number time hasked
    unfold Manager.asked? at hasked
    dsimp only at hasked
    unfold run
    dsimp only
    split at hasked
    · rename_i hrung
      rw [hrung]
      exact ⟨_, rfl⟩
    · cases hasked
  case refresh => exact congrArg Watch.manager (manage_world s _)

end Rehearsal.WatchStage

namespace Manager

/-! ## Requests -/

/-- How refreshes follow the reports of documents in a course that is over at a limit. -/
structure FollowsDocuments (m : Manager) (limit : Nat) (acts : List Act) : Prop where
  /-- A refresh is asked for when the delay behind a report is over and no other one has come. -/
  requested_iff : ∀ time, time ∈ m.refreshTimes acts ↔ time ≤ limit ∧
    ∃ before r after, m.documentReports acts = before ++ r :: after ∧
      time = r.time + m.settings.refreshDebounce ∧ ∀ s ∈ after, time ≤ s.time
  /-- No two refreshes are asked for at one time. -/
  once : (m.refreshTimes acts).Pairwise (· < ·)
  /-- From the first report of a burst on there is one, behind the last. -/
  burst : ∀ before burst first last after,
    m.documentReports acts = before ++ (burst ++ last :: after) →
    (burst ++ [last]).head? = some first →
    (burst ++ [last]).IsChain (fun r s => s.time < r.time + m.settings.refreshDebounce) →
    (∀ s ∈ after, last.time + m.settings.refreshDebounce ≤ s.time) →
    last.time + m.settings.refreshDebounce ≤ limit →
    ∀ time, first.time < time → time ≤ last.time + m.settings.refreshDebounce →
      (time ∈ m.refreshTimes acts ↔ time = last.time + m.settings.refreshDebounce)
  /-- A report touches nothing but alarms: not the refreshes under way, not what they owe, not what
  is registered. -/
  undisturbed : ∀ before now path kind after, acts = before ++ .change now path kind :: after →
    ∃ alarms, ((m.course before).1.perform (.change now path kind)).1 =
      { (m.course before).1 with alarms }

section FollowsDocuments

variable {m : Manager} {limit now : Nat} {asked : Bool} {acts : List Act}

/-- A place in two lists put together is a place in one of them. -/
theorem place_in_append {α : Type} {first second front back : List α} {r : α}
    (h : first ++ second = front ++ r :: back) :
    (∃ rest, first = front ++ r :: rest ∧ back = rest ++ second) ∨
      ∃ rest, second = rest ++ r :: back := by
  rcases List.append_eq_append_iff.mp h with ⟨rest, -, hsecond⟩ | ⟨rest, hfirst, hrest⟩
  · exact .inr ⟨rest, hsecond⟩
  · cases rest with
    | nil => exact .inr ⟨[], hrest.symm⟩
    | cons x rest =>
      obtain ⟨rfl, rfl⟩ := List.cons.inj hrest
      exact .inl ⟨rest, hfirst, rfl⟩

/-- In a burst a report that is not the last is followed by another one before the delay is over. -/
theorem followed_of_burst {delay : Nat} {last r : Report} {front back : List Report}
    (chain : (front ++ r :: back ++ [last]).IsChain fun r s => s.time < r.time + delay) :
    ∃ s ∈ back ++ [last], s.time < r.time + delay := by
  induction front with
  | nil =>
    cases back with
    | nil => exact ⟨last, by simp, (List.isChain_cons_cons.mp chain).1⟩
    | cons s rest => exact ⟨s, by simp, (List.isChain_cons_cons.mp chain).1⟩
  | cons x front ih => exact ih chain.of_cons

/-- From the first report of a burst on until the delay behind the last is over, that delay is the
only one that ends with no other report made meanwhile. -/
theorem last_of_burst {delay : Nat} {before burst after front back : List Report}
    {first last r : Report} (hsplit : before ++ (burst ++ last :: after) = front ++ r :: back)
    (hfirst : (burst ++ [last]).head? = some first)
    (chain : (burst ++ [last]).IsChain fun r s => s.time < r.time + delay)
    (quiet : ∀ s ∈ after, last.time + delay ≤ s.time)
    (hback : ∀ s ∈ back, r.time + delay ≤ s.time) (positive : 0 < delay)
    (hafter : first.time < r.time + delay) (hbefore : r.time ≤ last.time) : r = last := by
  rcases place_in_append hsplit with ⟨rest, -, rfl⟩ | ⟨_, hrest⟩
  · -- a report before the burst: the first one of the burst has come too soon
    have hmem : first ∈ rest ++ (burst ++ last :: after) := by
      have hfirst := List.mem_of_head? hfirst
      simp only [List.mem_append, List.mem_cons, List.not_mem_nil, or_false] at hfirst ⊢
      tauto
    have := hback first hmem
    omega
  · rcases place_in_append hrest with ⟨rest, rfl, rfl⟩ | ⟨gap, hlast⟩
    · obtain ⟨s, hs, hsoon⟩ := followed_of_burst chain
      have hmem : s ∈ rest ++ last :: after := by
        simp only [List.mem_append, List.mem_cons, List.not_mem_nil, or_false] at hs ⊢
        tauto
      have := hback s hmem
      omega
    · cases gap with
      | nil => exact (List.cons.inj hlast).1.symm
      | cons x gap =>
        have := quiet r (by simp [(List.cons.inj hlast).2])
        omega

theorem followsDocuments (h : m.WaitsFor none) (positive : 0 < m.settings.refreshDebounce)
    (hp : Prompt limit m now asked acts) : m.FollowsDocuments limit acts := by
  have htimes := refreshTimes_of_prompt h hp
  rw [Option.toList_none, List.nil_append] at htimes
  have hordered : (m.documentReports acts).Pairwise fun r s => r.time ≤ s.time :=
    hp.ordered.filter _
  have hiff : ∀ time, time ∈ m.refreshTimes acts ↔ time ≤ limit ∧
      ∃ before r after, m.documentReports acts = before ++ r :: after ∧
        time = r.time + m.settings.refreshDebounce ∧ ∀ s ∈ after, time ≤ s.time := by
    intro time
    rw [htimes, List.mem_filter, decide_eq_true_eq, and_comm, List.mem_map]
    refine and_congr_right fun _ => ?_
    constructor
    · rintro ⟨r, hr, rfl⟩
      obtain ⟨before, after, heq, hafter⟩ := mem_lastOfBursts.mp hr
      exact ⟨before, r, after, heq, rfl, hafter⟩
    · rintro ⟨before, r, after, heq, rfl, hafter⟩
      exact ⟨r, mem_lastOfBursts.mpr ⟨before, after, heq, hafter⟩, rfl⟩
  constructor
  case requested_iff => exact hiff
  case once =>
    rw [htimes]
    refine List.Pairwise.filter _ (List.pairwise_map.mpr ?_)
    refine (lastOfBursts_apart m.settings.refreshDebounce (m.documentReports acts)).imp ?_
    intro r s hapart
    omega
  case burst =>
    intro before burst first last after heq hfirst chain quiet hin time hafter hbefore
    rw [hiff]
    constructor
    · rintro ⟨-, front, r, back, hsplit, rfl, hback⟩
      rw [heq] at hsplit
      rw [last_of_burst hsplit hfirst chain quiet hback positive hafter (by omega)]
    · rintro rfl
      exact ⟨hin, before ++ burst, last, after, by simp [heq], rfl, quiet⟩
  case undisturbed =>
    intro before now path kind after _
    exact ⟨_, change_frame ..⟩

end FollowsDocuments

/-! ## The last report -/

/-- What is registered when the last report of a document in a course has had its refresh. -/
structure EndsUpToDate (m : Manager) (acts : List Act) (time : Nat) (tree : FileTree) : Prop where
  /-- The refresh is asked for at its time. -/
  requested : ∃ mid timestamp number wait late,
    acts = mid ++ .ring time timestamp number :: (wait ++ .refresh :: late) ∧
    (m.course mid).1.asked? (.ring time timestamp number) = some time ∧
    (∀ a ∈ wait, a.timeFrom time = time) ∧
    ∀ done more, late = done ++ more →
      let asked := (m.course (mid ++ .ring time timestamp number :: (wait ++ [.refresh]))).1
      let after := (asked.course done).1
      -- From the beginning of a pass on, and at any rate when no refresh is under way any more,
      -- the documents are registered.
      ((.begun ∈ asked.marks done ∨ after.refreshing = false) →
        after.definitions = tree.triggersBelow m.settings.triggerRoot m.settings.defaults) ∧
      -- A refresh that goes on comes to its end.
      ∀ now bindable, (after.settleRefresh now tree bindable).refreshing = false

section EndsUpToDate

variable {m : Manager} {limit now : Nat} {asked : Bool} {acts : List Act} {tree : FileTree}
  {former : Nat} {s : RefreshStage}

theorem stopped_course (going : m.stopped = false) (hreads : ∀ a ∈ acts, a.Reads tree) :
    (m.course acts).1.stopped = false := by
  induction acts generalizing m with
  | nil => exact going
  | cons a rest ih =>
    obtain ⟨ha, hrest⟩ := List.forall_mem_cons.mp hreads
    exact ih (stopped_perform ha.ne_shutdown going) hrest

/-- What has been renewed stays so, and the beginning of a pass renews it. -/
theorem Renewing.renewed_course (h : Renewing former tree m s) (hreads : ∀ a ∈ acts, a.Reads tree)
    (hor : .begun ∈ m.marks acts ∨ m.Renewed former tree) :
    (m.course acts).1.Renewed former tree := by
  induction acts generalizing m s with
  | nil => exact hor.resolve_left List.not_mem_nil
  | cons a rest ih =>
    obtain ⟨ha, hrest⟩ := List.forall_mem_cons.mp hreads
    obtain ⟨t, ht⟩ := h.perform ha
    refine ih ht hrest ?_
    rcases hor with hbegun | hrenewed
    · rcases List.mem_append.mp (show _ ∈ (m.mark? a).toList ++ _ from hbegun) with hhere | hlater
      · exact .inr (h.renewed_perform ha (.inl (Option.mem_toList.mp hhere)))
      · exact .inl hlater
    · exact .inr (h.renewed_perform ha (.inr hrenewed))

theorem endsUpToDate {r : Report} (h : m.WaitsFor (some r))
    (hs : m.Stands s) (going : m.stopped = false) (enabled : m.settings.enabled = true)
    (hp : Prompt limit m now asked acts) (quiet : m.documentReports acts = [])
    (hin : r.time + m.settings.refreshDebounce ≤ limit) (hreads : ∀ a ∈ acts, a.Reads tree) :
    m.EndsUpToDate acts (r.time + m.settings.refreshDebounce) tree := by
  obtain ⟨mid, timestamp, number, later, rfl, hasked, hlater⟩ := Waits.rings h hp hin quiet
  obtain ⟨wait, late, rfl, hwait⟩ := hlater.asks
  refine ⟨mid, timestamp, number, wait, late, rfl, hasked, hwait, ?_⟩
  rintro done more rfl
  dsimp only
  generalize hring : Act.ring (r.time + m.settings.refreshDebounce) timestamp number = ring at *
  have hfirst : ∀ a ∈ mid ++ ring :: wait, a.Reads tree := fun a ha => hreads a (by
    simp only [List.mem_append, List.mem_cons] at ha ⊢
    tauto)
  have hdone : ∀ a ∈ done, a.Reads tree := fun a ha => hreads a (by simp [ha])
  -- the manager when the refresh is asked for, and what it owes then
  have hbefore : m.course (mid ++ ring :: (wait ++ [.refresh])) =
      m.course ((mid ++ ring :: wait) ++ [.refresh]) := by simp
  rw [hbefore, course_append]
  have hgoing := stopped_course going hfirst
  have hwired := wired_course h.wired (mid ++ ring :: wait)
  have hsettings := settings_course m (mid ++ ring :: wait)
  obtain ⟨t, ht, -⟩ := through_course hs (mid ++ ring :: wait)
  generalize (m.course (mid ++ ring :: wait)).1 = n at *
  have hask : Act.refresh = .refresh ∨ Act.refresh = .start := .inl rfl
  obtain ⟨u, hu⟩ := renewing_ask hwired ht hgoing hask
  obtain ⟨v, hv⟩ := hu.course hdone
  constructor
  · intro hended
    have hrenewed : ((n.perform .refresh).1.course done).1.Renewed n.triggers.length tree := by
      rcases hended with hbegun | hsettled
      · exact hu.renewed_course hdone (.inl hbegun)
      · exact hv.renewed (hv.stands.eq_idle hsettled ▸ rfl)
    have hkept : ((n.perform .refresh).1.course done).1.settings = m.settings := by
      rw [settings_course, settings_perform, hsettings]
    refine hrenewed.definitions.trans ?_
    rw [declared, hkept, if_pos enabled]
  · intro now bindable
    exact (stands_settleRefresh hv.stands now tree bindable).2.1

end EndsUpToDate

/-- **Refreshes after changes of documents.** From a time on at which none is waited for, and as
long as the manager is not shut down, a refresh is asked for a delay behind each report of a
document that no other one has followed by then, and for no other report. If the documents stay as
they were at the last report, they are registered when its refresh is over. Any sequence of changes
can be reported, and a stage goes by these rules. -/
theorem refreshes_of_changes (settings : TriggerSettings) (earlier : List Act) {m : Manager}
    (reached : ((new settings).course earlier).1 = m) (now limit : Nat) (acts : List Act)
    (idle : m.refreshAlarm.live = []) (positive : 0 < m.settings.refreshDebounce)
    (prompt : Prompt limit m now false acts) :
    m.FollowsDocuments limit acts ∧
      (∀ before time path kind after tree, acts = before ++ .change time path kind :: after →
        m.concerns path = true → m.documentReports after = [] →
        time + m.settings.refreshDebounce ≤ limit → m.settings.enabled = true →
        (m.course before).1.stopped = false → (∀ a ∈ after, a.Reads tree) →
        ((m.course before).1.perform (.change time path kind)).1.EndsUpToDate after
          (time + m.settings.refreshDebounce) tree) ∧
      (∀ (later : Nat) (reports : List Report), now ≤ later →
        reports.Pairwise (fun r s => r.time ≤ s.time) →
        (∀ r ∈ reports, now ≤ r.time ∧ r.time ≤ later) → Reported later m now reports) ∧
      ∀ s : Rehearsal.WatchStage, s.FollowsDocuments := by
  have hwired : m.Wired := reached ▸ wired_course (wired_new settings) earlier
  have hwaits : m.WaitsFor none := ⟨hwired, congrArg (List.map _) idle⟩
  refine ⟨followsDocuments hwaits positive prompt, ?_, ?_, Rehearsal.WatchStage.followsDocuments⟩
  · rintro before time path kind after tree rfl hconcerns quiet hin enabled going hreads
    obtain ⟨waiting, since, asked, hwaiting, hrest⟩ := prompt.split hwaits
    obtain ⟨s, hs, -⟩ := through_course (stands_new settings)
      (earlier ++ (before ++ [.change time path kind]))
    rw [course_append, reached, course_append] at hs
    have hkept : ((m.course before).1.perform (.change time path kind)).1.settings = m.settings := by
      rw [settings_perform, settings_course]
    generalize (m.course before).1 = n at *
    have hnext := hwaiting.change time path kind
    have hsame : n.concerns path = m.concerns path := by
      rw [← concerns_perform n (.change time path kind), concerns, hkept, concerns]
    rw [hsame, if_pos hconcerns] at hnext
    have hquiet : (n.perform (.change time path kind)).1.documentReports after = [] := by
      rw [← quiet]
      simp only [documentReports, concerns, hkept]
    cases hrest with
    | act htime settled none_due unasked unshut hafter =>
      have hends := endsUpToDate hnext hs (stopped_perform (by simp) going) (by rw [hkept, enabled])
        hafter hquiet (by rw [hkept]; exact hin) hreads
      rw [hkept] at hends
      exact hends
  · intro later reports hle ordered between
    exact Waits.reported hwaits (by simp) hle ordered between

/-- A document is changed twice, and read when it has come to rest. -/
def editedTwice : List Act :=
  [.change 0 "/.flowline/a.intent.json" .change, .change 200 "/.flowline/a.intent.json" .change,
    .ring 500 "" 1, .refresh, .proceed 500 hookTree true 0]

theorem prompt_editedTwice : Prompt 900 (new plain) 0 false editedTwice := by
  refine .act (by decide) (by simp) rfl rfl (by simp) ?_
  refine .act (by decide) (by simp) rfl rfl (by simp) ?_
  let a : Alarm AlarmKey AlarmTask := ⟨1, .refresh, 500, .refresh⟩
  refine .ring (a := a) "" (by decide) (by simp) rfl ?_
  refine .refresh (.act (by decide) (by simp) rfl rfl (by simp) (.done (by decide) ?_))
  decide +kernel

/-- One refresh follows the two changes, and it registers what the document declares. -/
theorem edited_document_registers :
    0 < (new plain).settings.refreshDebounce ∧ 500 ∈ (new plain).refreshTimes editedTwice ∧
      300 ∉ (new plain).refreshTimes editedTwice ∧
      (((new plain).course (editedTwice.take 1)).1.perform
        (.change 200 "/.flowline/a.intent.json" .change)).1.EndsUpToDate (editedTwice.drop 2) 500
          hookTree := by
  obtain ⟨hfollows, hends, -⟩ := refreshes_of_changes (m := new plain) plain [] rfl 0 900
    editedTwice rfl (by decide) prompt_editedTwice
  have hburst := hfollows.burst [] [⟨0, "/.flowline/a.intent.json", .change⟩]
    ⟨0, "/.flowline/a.intent.json", .change⟩ ⟨200, "/.flowline/a.intent.json", .change⟩ [] rfl rfl
    (.cons_cons (by decide) (.singleton _)) (by simp) (by decide)
  refine ⟨by decide, (hburst 500 (by decide) (by decide)).mpr rfl, fun hmem => ?_, ?_⟩
  · have hclash := (hburst 300 (by decide) (by decide)).mp hmem
    revert hclash
    decide
  · exact hends (editedTwice.take 1) 200 "/.flowline/a.intent.json" .change (editedTwice.drop 2)
      hookTree rfl rfl rfl (by decide) rfl rfl (by simp [editedTwice, Act.Reads])

end Manager

end Workflow
