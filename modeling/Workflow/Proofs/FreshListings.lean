import Workflow.Proofs.Declarations
import Workflow.Proofs.Retirement
import Workflow.Proofs.Upkeep

/- What a manager lists after a refresh. A pass registers what the documents declare at
   that time and nothing else (`definitions_pass`), and until the next pass the listing
   stays (`definitions_of_table`). As a refresh that has been asked for comes to its end
   only through a pass (`Renewing`), the listing then depends on the documents alone: a
   new manager lists the same, and so does the program that lists triggers
   (`refreshes_anew`). -/
namespace Workflow

/-- In front of marks other than the beginning of a pass, no pass is to come if none is to come
behind them. -/
theorem RefreshStage.owed_of_after? {s t : RefreshStage} {k : RefreshMark}
    (h : s.after? k = some t) (hk : k ≠ .begun) (ht : t.owed = 0) : s.owed = 0 := by
  cases s with
  | idle => rfl
  | due again => cases k <;> cases h <;> first | exact absurd rfl hk | cases ht
  | within again => cases again <;> cases k <;> cases h <;> first | rfl | cases ht

namespace Manager

section FreshListings

variable {m : Manager} {a : Act} {tree : FileTree}

/-! ## Passes -/

theorem definitions_install (hempty : m.table = []) (now : Nat)
    (found : List TriggerDefinition) : (m.install now found).definitions = found := by
  have hplace : ∀ d ∈ found.zipIdx m.triggers.length,
      ((m.install now found).triggers[d.2]?).map (·.definition) = some d.1 := by
    rintro ⟨d, t⟩ hd
    obtain ⟨hle, hfound⟩ := List.mk_mem_zipIdx_iff_le_and_getElem?_sub.mp hd
    rw [install_triggers, List.getElem?_append_right hle, List.getElem?_map, hfound]
    rfl
  calc (m.install now found).definitions
    _ = (found.zipIdx m.triggers.length).filterMap fun d =>
          ((m.install now found).triggers[d.2]?).map (·.definition) := by
        rw [definitions, install_table, hempty, List.nil_append, List.filterMap_map]
        rfl
    _ = (found.zipIdx m.triggers.length).filterMap fun d => some d.1 :=
        List.filterMap_congr hplace
    _ = found := by rw [List.filterMap_eq_map', List.zipIdx_map_fst]

/-- A pass registers what the documents declare. -/
theorem definitions_pass (going : m.stopped = false) (now : Nat) (tree : FileTree) :
    (m.pass now tree).1.definitions = m.declared tree := by
  have hgoing : ¬ m.clear.stopped = true := by
    rw [show m.clear.stopped = m.stopped from rfl, going]
    exact Bool.false_ne_true
  unfold pass
  dsimp only
  rw [if_neg hgoing, (synced _).frame.1]
  exact definitions_install rfl now _

/-! ## Acts -/

/-- The definition of a registered trigger never changes. -/
theorem definitions_of_table (h : m.Wired) (kept : (m.perform a).1.table = m.table) :
    (m.perform a).1.definitions = m.definitions := by
  unfold definitions
  rw [kept]
  refine List.filterMap_congr fun t ht => ?_
  obtain ⟨d, hd⟩ := h.alive t ht
  obtain ⟨live, hl, -⟩ := Option.map_eq_some_iff.mp hd
  obtain ⟨live', hl', hdefinition, -⟩ := noted_occur h hl (.act a)
  have hnext : (m.perform a).1.triggers[t]? = some live' := hl'
  rw [hl, hnext, Option.map_some, Option.map_some, hdefinition]

theorem length_le_perform (h : m.Wired) (a : Act) :
    m.triggers.length ≤ (m.perform a).1.triggers.length := by
  refine Nat.le_of_not_lt fun hlt => ?_
  obtain ⟨live', hl', -⟩ := noted_occur h (List.getElem?_eq_getElem hlt) (.act a)
  obtain ⟨hless, -⟩ := List.getElem?_eq_some_iff.mp hl'
  exact Nat.lt_irrefl _ hless

/-- Only the beginning of a pass and a shutdown change what is registered. -/
theorem table_of_unbegun (hshut : a ≠ .shutdown) (unbegun : m.mark? a ≠ some .begun) :
    (m.perform a).1.table = m.table := by
  by_cases hdaily : a.isDaily = true
  · obtain ⟨triggers, alarms, hframe⟩ := perform_frame hdaily m
    rw [hframe]
  · cases a with
    | change | ring | fire | request => exact absurd rfl hdaily
    | start | refresh =>
      show (requestRefresh _).table = m.table
      rw [requestRefresh_frame]
    | setPort port => rfl
    | shutdown => exact absurd rfl hshut
    | proceed now tree bindable place =>
      show (m.proceedAt now tree bindable place).table = m.table
      unfold proceedAt
      split
      · rfl
      · rename_i p hp
        cases p with
        | ready => simp [mark?, hp] at unbegun
        | stopping port => cases port <;> rfl
        | binding port => cases bindable <;> rfl
        | passed =>
          unfold proceed endPass
          dsimp only
          split <;> rfl

theorem stopped_perform (hshut : a ≠ .shutdown) (going : m.stopped = false) :
    (m.perform a).1.stopped = false := by
  by_cases hdaily : a.isDaily = true
  · obtain ⟨triggers, alarms, hframe⟩ := perform_frame hdaily m
    rw [hframe]
    exact going
  · cases a with
    | change | ring | fire | request => exact absurd rfl hdaily
    | start =>
      show (requestRefresh _).stopped = false
      rw [requestRefresh_frame]
    | refresh =>
      show m.requestRefresh.stopped = false
      rw [requestRefresh_frame]
      exact going
    | setPort port => exact going
    | shutdown => exact absurd rfl hshut
    | proceed now tree bindable place =>
      show (m.proceedAt now tree bindable place).stopped = false
      unfold proceedAt
      split
      · exact going
      · rename_i p _
        cases p with
        | ready =>
          show (m.pass now tree).1.stopped = false
          rw [pass_frame]
          exact going
        | stopping port => cases port <;> exact going
        | binding port => cases bindable <;> exact going
        | passed =>
          unfold proceed endPass
          dsimp only
          split <;> exact going

/-- Whether an act goes on with refreshes from the given documents and does not shut the manager
down. -/
def Act.Reads (tree : FileTree) : Act → Prop
  | .proceed _ t _ _ => t = tree
  | .shutdown => False
  | _ => True

theorem Act.Reads.ne_shutdown (h : a.Reads tree) : a ≠ .shutdown := by
  rintro rfl
  exact h

/-- A pass begins by a move of a refresh in front of it. -/
theorem begins_of_mark? (h : m.mark? a = some .begun) :
    ∃ now tree bindable place,
      a = .proceed now tree bindable place ∧ m.passes[place]? = some .ready := by
  cases a with
  | proceed now tree bindable place =>
    refine ⟨now, tree, bindable, place, rfl, ?_⟩
    simp only [mark?] at h
    split at h
    · assumption
    · cases h
    · cases h
  | start | refresh | change | ring | fire | request | setPort | shutdown => cases h

/-! ## Refreshes -/

/-- Whether the registered triggers are those that the documents declare, and none of the first
ones that were ever known, so many of them. -/
structure Renewed (m : Manager) (former : Nat) (tree : FileTree) : Prop where
  definitions : m.definitions = m.declared tree
  replaced : ∀ t < former, t ∉ m.table

/-- What is known while a refresh goes on that was asked for when so many triggers were known: once
no pass is to begin any more, all is renewed. -/
structure Renewing (former : Nat) (tree : FileTree) (m : Manager) (s : RefreshStage) : Prop where
  wired : m.Wired
  stands : m.Stands s
  going : m.stopped = false
  known : former ≤ m.triggers.length
  renewed : s.owed = 0 → m.Renewed former tree

variable {former : Nat} {s : RefreshStage}

theorem Renewing.renewed_perform (h : Renewing former tree m s) (ha : a.Reads tree)
    (hor : m.mark? a = some .begun ∨ m.Renewed former tree) :
    (m.perform a).1.Renewed former tree := by
  have hdeclared : (m.perform a).1.declared tree = m.declared tree := by
    unfold declared
    rw [settings_perform]
  by_cases hbegun : m.mark? a = some .begun
  · -- a pass leaves nothing of what was registered before
    obtain ⟨now, other, bindable, place, rfl, hready⟩ := begins_of_mark? hbegun
    obtain rfl : other = tree := ha
    constructor
    case definitions =>
      rw [hdeclared, ← definitions_pass h.going now other]
      show (m.proceedAt now other bindable place).definitions = _
      unfold proceedAt
      rw [hready]
      rfl
    case replaced =>
      intro t ht
      have hl := List.getElem?_eq_getElem (Nat.lt_of_lt_of_le ht h.known)
      exact not_mem_table_proceedAt hl hready now other bindable
  · have hrenewed := hor.resolve_left hbegun
    have hkept := table_of_unbegun ha.ne_shutdown hbegun
    constructor
    case definitions => rw [hdeclared, definitions_of_table h.wired hkept, hrenewed.definitions]
    case replaced =>
      rw [hkept]
      exact hrenewed.replaced

theorem Renewing.perform (h : Renewing former tree m s) (ha : a.Reads tree) :
    ∃ t, Renewing former tree (m.perform a).1 t := by
  obtain ⟨t, ht, hthrough⟩ := stands_perform h.stands a
  refine ⟨t, h.wired.perform a, ht, stopped_perform ha.ne_shutdown h.going,
    Nat.le_trans h.known (length_le_perform h.wired a), fun howed => h.renewed_perform ha ?_⟩
  cases hmark : m.mark? a with
  | none =>
    rw [hmark] at hthrough
    cases hthrough
    exact .inr (h.renewed howed)
  | some k =>
    rw [hmark] at hthrough
    obtain ⟨u, hafter, hlast⟩ := RefreshStage.through?_cons.mp hthrough
    cases hlast
    by_cases hk : k = .begun
    · exact .inl (by rw [hk])
    · exact .inr (h.renewed (RefreshStage.owed_of_after? hafter hk howed))

theorem Renewing.course {acts : List Act} (h : Renewing former tree m s)
    (ha : ∀ a ∈ acts, a.Reads tree) : ∃ t, Renewing former tree (m.course acts).1 t := by
  induction acts generalizing m s with
  | nil => exact ⟨s, h⟩
  | cons a rest ih =>
    obtain ⟨hfirst, hrest⟩ := List.forall_mem_cons.mp ha
    obtain ⟨t, ht⟩ := h.perform hfirst
    exact ih ht hrest

/-- Whoever asks for a refresh gets all renewed. -/
theorem renewing_ask (h : m.Wired) (hs : m.Stands s) (going : m.stopped = false) {ask : Act}
    (hask : ask = .refresh ∨ ask = .start) :
    ∃ t, Renewing m.triggers.length tree (m.perform ask).1 t := by
  have hmark : m.mark? ask = some .asked := by rcases hask with rfl | rfl <;> rfl
  have hshut : ask ≠ .shutdown := by rcases hask with rfl | rfl <;> simp
  obtain ⟨t, ht, hthrough⟩ := stands_perform hs ask
  rw [hmark] at hthrough
  obtain ⟨u, hafter, hlast⟩ := RefreshStage.through?_cons.mp hthrough
  cases hlast
  refine ⟨t, h.perform ask, ht, stopped_perform hshut going, length_le_perform h ask, ?_⟩
  -- a pass is to begin after the request
  intro howed
  cases s <;> cases hafter <;> cases howed

/-- When no refresh is under way any more, all is renewed. -/
theorem renewing_course (h : m.Wired) (hs : m.Stands s) (going : m.stopped = false) {ask : Act}
    (hask : ask = .refresh ∨ ask = .start) {during : List Act} (hreads : ∀ a ∈ during, a.Reads tree)
    (settled : (m.course (ask :: during)).1.refreshing = false) :
    Renewing m.triggers.length tree (m.course (ask :: during)).1 .idle := by
  obtain ⟨t, ht⟩ := renewing_ask h hs going hask
  obtain ⟨u, hu⟩ := ht.course hreads
  obtain rfl := hu.stands.eq_idle settled
  exact hu

/-- Refreshes carried out are moves made one after the other. -/
theorem settleWithin_eq_course (m : Manager) (now : Nat) (tree : FileTree) (bindable : Bool)
    (fuel : Nat) : settleWithin now tree bindable fuel m =
      (m.course (List.replicate fuel (.proceed now tree bindable 0))).1 := by
  induction fuel generalizing m with
  | zero => rfl
  | succ fuel ih =>
    show (if m.passes.isEmpty then m
      else settleWithin now tree bindable fuel (m.proceedAt now tree bindable 0)) =
        ((m.proceedAt now tree bindable 0).course (List.replicate fuel _)).1
    rw [← ih]
    cases hp : m.passes with
    | nil =>
      have hsame : m.proceedAt now tree bindable 0 = m :=
        proceedAt_absent (by rw [hp]; rfl) now tree bindable
      rw [hsame, settleWithin_idle hp, ite_self]
    | cons p rest => rw [if_neg (by simp)]

theorem refresh_eq_course (m : Manager) (now : Nat) (tree : FileTree) (bindable : Bool) :
    m.refresh now tree bindable =
      (m.course (.refresh :: List.replicate refreshMoves (.proceed now tree bindable 0))).1 := by
  unfold refresh settleRefresh
  rw [settleWithin_eq_course, course]
  dsimp only [perform]

theorem settings_course (m : Manager) (acts : List Act) :
    (m.course acts).1.settings = m.settings := by
  apply course_invariant (fun n => n.settings = m.settings)
  · intro n a h
    rw [settings_perform, h]
  · rfl

theorem settings_refresh (m : Manager) (now : Nat) (tree : FileTree) (bindable : Bool) :
    (m.refresh now tree bindable).settings = m.settings := by
  rw [refresh_eq_course, settings_course]

theorem reads_replicate (n now : Nat) (tree : FileTree) (bindable : Bool) (place : Nat) :
    ∀ a ∈ List.replicate n (Act.proceed now tree bindable place), a.Reads tree := by
  intro a ha
  obtain rfl := List.eq_of_mem_replicate ha
  rfl

/-- A refresh carried out comes to its end. -/
theorem settled_refresh (hs : m.Stands s) (now : Nat) (tree : FileTree) (bindable : Bool) :
    (m.refresh now tree bindable).refreshing = false := by
  obtain ⟨t, ht, -⟩ := stands_requestRefresh hs
  exact (stands_settleRefresh ht now tree bindable).2.1

theorem renewing_refresh (h : m.Wired) (hs : m.Stands s) (going : m.stopped = false) (now : Nat)
    (tree : FileTree) (bindable : Bool) :
    Renewing m.triggers.length tree (m.refresh now tree bindable) .idle := by
  have hsettled := settled_refresh hs now tree bindable
  rw [refresh_eq_course] at hsettled ⊢
  exact renewing_course h hs going (.inl rfl) (reads_replicate _ now tree bindable 0) hsettled

end FreshListings

/-! ## Listings -/

/-- What a manager lists when a refresh is over that was asked for earlier. -/
structure FreshListing (settings : TriggerSettings) (tree : FileTree) (former m : Manager) :
    Prop where
  listed : m.list = (tree.triggersBelow settings.triggerRoot settings.defaults).map (·.info)
  /-- It is what the documents declare, in order. -/
  documents : ∃ paths, tree.Discovered settings.triggerRoot paths ∧
    Declares tree settings.defaults paths m.definitions
  /-- It is what a new manager lists after its first refresh. -/
  first : ∀ now bindable, m.list = ((new settings).refresh now tree bindable).list
  /-- It is what the program lists that is started with these settings. -/
  command : ∀ c : Cli.Context, c.settings.triggerRoot = settings.triggerRoot →
    c.settings.defaults = settings.defaults → c.environment.tree = tree →
    c.foundTriggers.1 = m.list ∧ (c.json = true → ∀ showRejected b,
      c.triggers showRejected b = (b.print (.pretty (.ofList TriggerInfo.toJson m.list)), .ok ()))
  /-- Each trigger is declared by a step of a document that is there. -/
  declared : ∀ d ∈ m.definitions, ∃ p step, Pipeline.load tree d.pipeline = .ok p ∧
    p.steps[d.stepIndex]? = some step ∧
    TriggerDefinition.ofStep d.pipeline d.stepIndex step settings.defaults = .ok (some d)
  /-- Those that were known earlier are not registered any more, and never will be. -/
  replaced : ∀ t < former.triggers.length, ∀ later, Silent t (m.occurAll later)

theorem Renewing.freshListing {settings : TriggerSettings} {tree : FileTree} {former m : Manager}
    (h : Renewing former.triggers.length tree m .idle) (hsettings : m.settings = settings)
    (enabled : settings.enabled = true) : FreshListing settings tree former m := by
  obtain ⟨hdefinitions, hreplaced⟩ := h.renewed rfl
  have hdeclared : ∀ m : Manager, m.settings = settings →
      m.declared tree = tree.triggersBelow settings.triggerRoot settings.defaults := by
    rintro m rfl
    exact if_pos enabled
  rw [hdeclared m hsettings] at hdefinitions
  have hlisted : m.list = (tree.triggersBelow settings.triggerRoot settings.defaults).map (·.info) :=
    congrArg (List.map _) hdefinitions
  have hdeclares := declares_triggersBelow tree settings.triggerRoot settings.defaults
  constructor
  case listed => exact hlisted
  case documents =>
    rw [hdefinitions]
    exact ⟨_, tree.discovered_pipelinesBelow settings.triggerRoot, hdeclares⟩
  case first =>
    intro now bindable
    have hnew := renewing_refresh (wired_new settings) (stands_new settings) rfl now tree bindable
    have hkept := settings_refresh (new settings) now tree bindable
    rw [hlisted, ← hdeclared _ hkept, ← (hnew.renewed rfl).definitions]
    rfl
  case command =>
    rintro c hroot hdefaults rfl
    have hfound : c.foundTriggers.1 = m.list := by
      rw [Cli.Context.foundTriggers_fst, hroot, hdefaults, hlisted]
    refine ⟨hfound, fun hjson showRejected b => ?_⟩
    unfold Cli.Context.triggers
    dsimp only
    rw [if_pos hjson, hfound]
  case declared =>
    intro d hd
    rw [hdefinitions] at hd
    exact (hdeclares.source hd).2
  case replaced =>
    intro t ht later
    have hl := List.getElem?_eq_getElem (Nat.lt_of_lt_of_le ht h.known)
    exact retired_occurAll h.wired hl (hreplaced t ht) later

/-- What comes of a refresh of a manager. -/
structure RefreshesAnew (settings : TriggerSettings) (tree : FileTree) (m : Manager) : Prop where
  /-- A refresh carried out comes to its end. -/
  carried : ∀ now bindable, (m.refresh now tree bindable).refreshing = false ∧
    FreshListing settings tree m (m.refresh now tree bindable)
  /-- Anything else may go on during a refresh. -/
  interleaved : ∀ ask, ask = .refresh ∨ ask = .start → ∀ during, (∀ a ∈ during, a.Reads tree) →
    (m.course (ask :: during)).1.refreshing = false →
    FreshListing settings tree m (m.course (ask :: during)).1

/-- Whatever was done with a manager that is not shut down, after a refresh it lists what the
documents declare, and what was registered before is gone. -/
theorem refreshes_anew (settings : TriggerSettings) (enabled : settings.enabled = true)
    (acts : List Act) (going : ((new settings).course acts).1.stopped = false) (tree : FileTree) :
    RefreshesAnew settings tree ((new settings).course acts).1 := by
  have hw := wired_course (wired_new settings) acts
  obtain ⟨s, hs, -⟩ := through_course (stands_new settings) acts
  have hsettings := settings_course (new settings) acts
  generalize ((new settings).course acts).1 = m at *
  constructor
  case carried =>
    intro now bindable
    have hkept := (settings_refresh m now tree bindable).trans hsettings
    have hrenewing := renewing_refresh hw hs going now tree bindable
    exact ⟨settled_refresh hs now tree bindable, hrenewing.freshListing hkept enabled⟩
  case interleaved =>
    intro ask hask during hreads settled
    have hkept := (settings_course m (ask :: during)).trans hsettings
    exact (renewing_course hw hs going hask hreads settled).freshListing hkept enabled

/-- The settings of an empty configuration. -/
def plain : TriggerSettings := .ofConfig {} "/"

/-- A tree with a pipeline that a webhook starts. -/
def hookTree : FileTree :=
  FileTree.empty.plant "/.flowline/a.intent.json" (Text.encode
    ("\x7b\"name\":\"a\",\"steps\":[\x7b\"intent\":\"system.trigger.webhook\"," ++
      "\"payload\":\x7b\"path\":\"a\"\x7d\x7d]\x7d"))

/-- That document is gone, and there is another one. -/
def otherTree : FileTree :=
  FileTree.empty.plant "/.flowline/b.intent.json" (Text.encode
    ("\x7b\"name\":\"b\",\"steps\":[\x7b\"intent\":\"system.trigger.webhook\"," ++
      "\"payload\":\x7b\"path\":\"b\"\x7d\x7d]\x7d"))

/-- A manager that has been started, while its second refresh is still under way. -/
def hooked : Manager :=
  ((new plain).course [.start, .proceed 0 hookTree true 0, .refresh]).1

/-- The trigger of a document that is gone leaves the listing for good. -/
theorem removed_document_leaves_listing :
    hooked.list.map (·.id) = ["a.intent.json#0"] ∧
      (hooked.refresh 5 otherTree true).list.map (·.id) = ["b.intent.json#0"] ∧
      ∀ later, Silent 0 ((hooked.refresh 5 otherTree true).occurAll later) := by
  obtain ⟨hgoing, hknown, hbefore⟩ : hooked.stopped = false ∧ 0 < hooked.triggers.length ∧
      hooked.list.map (·.id) = ["a.intent.json#0"] := by decide +kernel
  have hafter : ((otherTree.triggersBelow plain.triggerRoot plain.defaults).map (·.info)).map
      (·.id) = ["b.intent.json#0"] := by decide +kernel
  have hfresh : FreshListing plain otherTree hooked (hooked.refresh 5 otherTree true) :=
    ((refreshes_anew plain rfl _ hgoing otherTree).carried 5 true).2
  refine ⟨hbefore, ?_, hfresh.replaced 0 hknown⟩
  rw [hfresh.listed]
  exact hafter

end Manager

end Workflow
