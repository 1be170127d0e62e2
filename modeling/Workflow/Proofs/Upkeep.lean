import Mathlib.Logic.Function.Iterate
import Workflow.Proofs.RefreshPasses
import Workflow.Proofs.Wiring

/- Operations on a manager, each taken as a whole: a refresh that is asked for is carried
   out before anything else is done, and a listener can be bound to any port. After each
   of them the table, the routes, the alarms and the listener agree (`Site.orderly`). That
   the first three do is known of every act; what is new here is the listener. It lags
   behind the routes during a refresh (`ListenerAt`) and has caught up at its end. -/
namespace Workflow

namespace Manager

/-! ## The listener during a refresh -/

/-- How the listener is when a refresh has come so far. -/
def ListenerAt (m : Manager) : RefreshPass → Prop
  | .ready => True
  | .stopping none => m.listener = none ∧ m.routes.isEmpty = true
  | .stopping (some port) => port = m.port ∧ m.routes.isEmpty = false ∧ m.stopped = false
  | .binding port => port = m.port ∧ m.routes.isEmpty = false ∧ m.stopped = false
  | .passed => m.listener = if m.routes.isEmpty then none else some m.port

/-- Whether a manager that has been shut down has no listener. -/
def Quiet (m : Manager) : Prop := m.stopped = true → m.listener = none

theorem pass_listener {m : Manager} (h : m.Quiet) (now : Nat) (tree : FileTree) :
    (m.pass now tree).1.ListenerAt (m.pass now tree).2 ∧ (m.pass now tree).1.Quiet := by
  unfold pass
  dsimp only
  split
  · rename_i hstopped
    exact ⟨h hstopped, fun _ => h hstopped⟩
  · rename_i hstopped
    have hrunning : (m.clear.install now (m.clear.declared tree)).stopped = false := by
      rw [install_frame]
      exact Bool.eq_false_iff.mpr hstopped
    generalize m.clear.install now (m.clear.declared tree) = installed at hrunning
    have hquiet : installed.syncListener.1.Quiet := by
      intro hs
      rw [(synced installed).frame.1] at hs
      exact absurd (hs.symm.trans hrunning) (by decide)
    refine ⟨?_, hquiet⟩
    have hsynced := synced installed
    generalize installed.syncListener = out at hsynced
    cases hsynced with
    | unneeded hroutes hbound => simp [ListenerAt, hroutes, hbound]
    | kept hroutes hbound => simp [ListenerAt, hroutes, hbound]
    | stop hroutes => exact ⟨rfl, hroutes⟩
    | move hroutes => exact ⟨rfl, hroutes, hrunning⟩
    | bind hroutes => exact ⟨rfl, hroutes, hrunning⟩

/-- A refresh carried on keeps to its place, as far as the listener goes. -/
theorem proceed_listener {m : Manager} {p : RefreshPass} (h : m.ListenerAt p) (hq : m.Quiet)
    (hp : p ≠ .passed) (now : Nat) (tree : FileTree) :
    ∃ next, (m.proceed now tree true p).2 = some next ∧
      (m.proceed now tree true p).1.ListenerAt next ∧ (m.proceed now tree true p).1.Quiet := by
  cases p with
  | ready => exact ⟨_, rfl, pass_listener hq now tree⟩
  | stopping port =>
    cases port with
    | none =>
      refine ⟨.passed, rfl, ?_, hq⟩
      obtain ⟨hnone, hempty⟩ := h
      show m.listener = if m.routes.isEmpty then none else some m.port
      rw [hempty, hnone]
      rfl
    | some port => exact ⟨.binding port, rfl, h, hq⟩
  | binding port =>
    obtain ⟨rfl, hroutes, hrunning⟩ := h
    refine ⟨.passed, rfl, ?_, fun hs => ?_⟩
    · show some m.port = if m.routes.isEmpty then none else some m.port
      simp [hroutes]
    · exact absurd (hs.symm.trans hrunning) (by decide)
  | passed => exact absurd rfl hp

theorem proceed_keeps (m : Manager) (now : Nat) (tree : FileTree) (bindable : Bool)
    (p : RefreshPass) :
    (m.proceed now tree bindable p).1.port = m.port ∧
      (m.proceed now tree bindable p).1.settings = m.settings := by
  cases p with
  | ready =>
    show (m.pass now tree).1.port = m.port ∧ (m.pass now tree).1.settings = m.settings
    rw [pass_frame]
    exact ⟨rfl, rfl⟩
  | stopping port => cases port <;> exact ⟨rfl, rfl⟩
  | binding port => cases bindable <;> exact ⟨rfl, rfl⟩
  | passed =>
    unfold proceed endPass
    dsimp only
    split <;> exact ⟨rfl, rfl⟩

/-- A manager keeps the settings that it was made with. -/
theorem settings_perform (m : Manager) (a : Act) : (m.perform a).1.settings = m.settings := by
  have hdaily : ∀ a : Act, a.isDaily = true → (m.perform a).1.settings = m.settings := by
    intro a ha
    obtain ⟨triggers, alarms, hframe⟩ := perform_frame ha m
    rw [hframe]
  cases a with
  | start | refresh =>
    show (requestRefresh _).settings = m.settings
    rw [requestRefresh_frame]
  | proceed now tree bindable place =>
    show (m.proceedAt now tree bindable place).settings = m.settings
    unfold proceedAt
    split
    · rfl
    · exact (m.proceed_keeps now tree bindable _).2
  | change | ring | fire | request => exact hdaily _ rfl
  | setPort | shutdown => rfl

theorem settleWithin_idle {m : Manager} (h : m.passes = []) (now : Nat) (tree : FileTree)
    (bindable : Bool) (fuel : Nat) : settleWithin now tree bindable fuel m = m := by
  cases fuel with
  | zero => rfl
  | succ fuel => simp [settleWithin, h]

/-- What is known of the listener when no refresh is under way. -/
structure Settled (m : Manager) (port : Option Nat) : Prop where
  idle : m.Stands .idle
  quiet : m.Quiet
  bound : m.listener = if m.routes.isEmpty then none else port

/-- When the refreshes under way are over, the listener is on the port that is set, if there is a
route at all. -/
theorem settled_settleWithin {m : Manager} {s : RefreshStage} {p : RefreshPass}
    (hs : m.Stands s) (hp : m.passes = [p]) (h : m.ListenerAt p) (hq : m.Quiet) (now : Nat)
    (tree : FileTree) {fuel : Nat} (hfuel : m.refreshMovesLeft ≤ fuel) :
    (settleWithin now tree true fuel m).Settled (some m.port) := by
  induction fuel generalizing m s p with
  | zero =>
    have := p.movesLeft_pos
    simp only [refreshMovesLeft, hp, List.foldr_cons, List.foldr_nil] at hfuel
    omega
  | succ fuel ih =>
    obtain ⟨t, ht, -⟩ := stands_proceedAt hs now tree true 0
    have hless := refreshMovesLeft_proceedAt hp now tree true
    unfold settleWithin
    rw [proceedAt_only hp] at ht hless ⊢
    rw [hp]
    by_cases hpassed : p = .passed
    · subst hpassed
      by_cases hpending : m.pending = true
      · have hout : m.proceed now tree true .passed = ({ m with pending := false }, some .ready) := by
          simp [proceed, endPass, hpending]
        rw [hout] at ht hless ⊢
        exact ih ht rfl trivial hq (by omega)
      · have hout : m.proceed now tree true .passed = ({ m with refreshing := false }, none) := by
          simp [proceed, endPass, hpending]
        rw [hout] at ht ⊢
        obtain rfl := ht.eq_idle rfl
        dsimp only [List.isEmpty_cons, Bool.false_eq_true, if_false, Option.toList_none]
        rw [if_neg Bool.false_ne_true, settleWithin_idle rfl]
        exact ⟨ht, hq, h⟩
    · obtain ⟨next, hnext, hlistener, hquiet⟩ := proceed_listener h hq hpassed now tree
      have hport := (m.proceed_keeps now tree true p).1
      rw [hnext] at ht hless ⊢
      rw [← hport]
      exact ih ht rfl hlistener hquiet (by omega)

theorem wired_settleWithin {m : Manager} (h : m.Wired) (now : Nat) (tree : FileTree)
    (bindable : Bool) (fuel : Nat) : (settleWithin now tree bindable fuel m).Wired := by
  induction fuel generalizing m with
  | zero => exact h
  | succ fuel ih =>
    unfold settleWithin
    split
    · exact h
    · exact ih (wired_proceedAt h now tree bindable 0)

theorem quiet_requestRefresh {m : Manager} (h : m.Quiet) : m.requestRefresh.Quiet := by
  rw [requestRefresh_frame]
  exact h

theorem due_requestRefresh {m : Manager} (h : m.Stands .idle) :
    m.requestRefresh.Stands (.due false) := by
  obtain ⟨t, ht, hafter⟩ := stands_requestRefresh h
  cases hafter
  exact ht

theorem due_again_requestRefresh {m : Manager} {again : Bool} (h : m.Stands (.due again)) :
    m.requestRefresh.Stands (.due true) := by
  obtain ⟨t, ht, hafter⟩ := stands_requestRefresh h
  cases hafter
  exact ht

end Manager

/-! ## Operations -/

/-- A manager with the documents that it reads. -/
structure Site where
  manager : Manager
  tree : FileTree
  /-- The port that was set when a refresh was completed last. -/
  refreshedOn : Option Nat := none

/-- What can be done to a manager and its documents, each as a whole. -/
inductive Operation where
  | start (now : Nat)
  /-- Refreshes asked for at one time, so many of them behind the first. -/
  | refresh (now more : Nat)
  | edit (tree : FileTree)
  | change (now : Nat) (path : String) (kind : ChangeKind)
  /-- Time goes by until an alarm rings. If it rings for a refresh, that is an operation of its
  own. -/
  | ring (now : Nat) (timestamp : String) (alarm : Nat)
  | fire (now : Nat) (id : String) (event : Json)
  | request (now : Nat) (request : Http.Request)
  | setPort (port : Nat)
  | shutdown

namespace Site

/-- The site with the refreshes of a manager carried out. A listener can be bound to any port. -/
def settle (s : Site) (now : Nat) (m : Manager) : Site :=
  { s with manager := m.settleRefresh now s.tree true, refreshedOn := some m.port }

/-- The site after an act on its manager. -/
def after (s : Site) (a : Manager.Act) : Site := { s with manager := (s.manager.perform a).1 }

/-- The site after an operation. -/
def operate (s : Site) : Operation → Site
  | .start now => s.settle now s.manager.start
  | .refresh now more => s.settle now (Manager.requestRefresh^[more] s.manager.requestRefresh)
  | .edit tree => { s with tree }
  | .change now path kind => s.after (.change now path kind)
  | .ring now timestamp alarm => s.after (.ring now timestamp alarm)
  | .fire now id event => s.after (.fire now id event)
  | .request now r => s.after (.request now r)
  | .setPort port => s.after (.setPort port)
  | .shutdown => s.after .shutdown

/-- The site after operations. -/
def operateAll (s : Site) (ops : List Operation) : Site := ops.foldl operate s

/-- What every operation keeps. -/
structure Upkept (s : Site) : Prop where
  wired : s.manager.Wired
  settled : s.manager.Settled s.refreshedOn
  /-- Nothing is registered before the first refresh. -/
  served : s.refreshedOn = none → s.manager.routes.isEmpty = true

theorem upkept_new (settings : TriggerSettings) (tree : FileTree) :
    (Site.mk (.new settings) tree none).Upkept where
  wired := Manager.wired_new settings
  settled := ⟨Manager.stands_new settings, fun _ => rfl, rfl⟩
  served _ := rfl

theorem upkept_settle (s : Site) (now : Nat) {m : Manager} {again : Bool} (hw : m.Wired)
    (hs : m.Stands (.due again)) (hq : m.Quiet) : (s.settle now m).Upkept where
  wired := Manager.wired_settleWithin hw now s.tree true _
  settled := by
    have hmoves : m.refreshMovesLeft ≤ Manager.refreshMoves :=
      Nat.le_trans (Manager.refreshMovesLeft_le hs) (by decide)
    exact Manager.settled_settleWithin hs hs.1 trivial hq now s.tree hmoves
  served hnone := by cases hnone

/-- The daily business leaves the listener and the routes alone. -/
theorem Upkept.daily {s : Site} (h : s.Upkept) {a : Manager.Act} (ha : a.isDaily = true) :
    (s.after a).Upkept := by
  obtain ⟨triggers, alarms, hframe⟩ := Manager.perform_frame ha s.manager
  have hmanager : (s.after a).manager = { s.manager with triggers, alarms } := hframe
  constructor
  case wired => exact h.wired.perform a
  case settled =>
    rw [hmanager]
    exact ⟨h.settled.idle, h.settled.quiet, h.settled.bound⟩
  case served =>
    rw [hmanager]
    exact h.served

theorem Upkept.operate {s : Site} (h : s.Upkept) (op : Operation) : (s.operate op).Upkept := by
  have hidle := h.settled.idle
  cases op with
  | start now =>
    have hrunning : Manager.Wired { s.manager with stopped := false } :=
      h.wired.congr rfl rfl rfl fun _ => rfl
    have hdue : s.manager.start.Stands (.due false) := Manager.due_requestRefresh hidle
    refine upkept_settle s now (Manager.wired_requestRefresh hrunning) hdue ?_
    exact Manager.quiet_requestRefresh fun hs => by cases hs
  | refresh now more =>
    -- the first one begins, and the others make for one more pass
    have hasked : ∃ again, (Manager.requestRefresh^[more] s.manager.requestRefresh).Wired ∧
        (Manager.requestRefresh^[more] s.manager.requestRefresh).Stands (.due again) ∧
        (Manager.requestRefresh^[more] s.manager.requestRefresh).Quiet := by
      induction more with
      | zero =>
        exact ⟨false, Manager.wired_requestRefresh h.wired, Manager.due_requestRefresh hidle,
          Manager.quiet_requestRefresh h.settled.quiet⟩
      | succ more ih =>
        obtain ⟨again, hw, hs, hq⟩ := ih
        rw [Function.iterate_succ_apply']
        exact ⟨true, Manager.wired_requestRefresh hw, Manager.due_again_requestRefresh hs,
          Manager.quiet_requestRefresh hq⟩
    obtain ⟨again, hw, hs, hq⟩ := hasked
    exact upkept_settle s now hw hs hq
  | edit tree => exact ⟨h.wired, h.settled, h.served⟩
  | change now path kind => exact h.daily rfl
  | ring now timestamp alarm => exact h.daily rfl
  | fire now id event => exact h.daily rfl
  | request now r => exact h.daily rfl
  | setPort port =>
    exact ⟨h.wired.perform _, ⟨hidle, h.settled.quiet, h.settled.bound⟩, h.served⟩
  | shutdown => exact ⟨h.wired.perform _, ⟨hidle, fun _ => rfl, rfl⟩, fun _ => rfl⟩

theorem Upkept.operateAll {s : Site} (h : s.Upkept) (ops : List Operation) :
    (s.operateAll ops).Upkept := by
  induction ops generalizing s with
  | nil => exact h
  | cons op rest ih => exact ih (h.operate op)

/-- The routes of a manager, entry by entry. -/
theorem mem_routes {m : Manager} (h : m.Wired) (path : String) (ts : List Nat) :
    (path, ts) ∈ m.routes ↔ ts = m.hooksOn path ∧ ts ≠ [] := by
  have hrouted := h.routed path
  have hoccupied := h.occupied path
  unfold Manager.routed at hrouted
  rw [Table.mem_iff_get? h.ordered, ← hrouted]
  cases hget : Table.get? m.routes path with
  | none => simp
  | some found =>
    rw [hget] at hoccupied
    constructor
    · rintro ⟨⟩
      exact ⟨rfl, fun hnone => hoccupied (by rw [hnone])⟩
    · rintro ⟨rfl, -⟩
      rfl

/-- There is a route if there is a webhook. -/
theorem routes_isEmpty_iff {m : Manager} (h : m.Wired) :
    m.routes.isEmpty = true ↔ m.ofKind .webhook = [] := by
  rw [List.isEmpty_iff]
  constructor
  · intro hempty
    refine List.eq_nil_iff_forall_not_mem.mpr fun t ht => ?_
    obtain ⟨hmem, d, b, hd, hkind⟩ := Manager.mem_ofKind.mp ht
    obtain ⟨hook, hspec⟩ : ∃ hook, d.spec = .webhook hook := by
      unfold TriggerDefinition.kind at hkind
      cases hs : d.spec with
      | webhook hook => exact ⟨hook, rfl⟩
      | cron | watch => simp [hs, TriggerSpec.kind] at hkind
    have hhook : m.hook? t = some hook := Manager.hook?_eq_some_iff.mpr ⟨d, b, hd, hspec⟩
    have hon : t ∈ m.hooksOn hook.path := Manager.mem_hooksOn.mpr ⟨hmem, hook, hhook, rfl⟩
    rw [← h.routed, Manager.routed, hempty] at hon
    cases hon
  · intro hnone
    refine List.eq_nil_iff_forall_not_mem.mpr fun entry hentry => ?_
    obtain ⟨hts, hsome⟩ := (mem_routes h entry.1 entry.2).mp hentry
    obtain ⟨t, ht⟩ := List.exists_mem_of_ne_nil _ hsome
    rw [hts] at ht
    obtain ⟨hmem, hook, hhook, -⟩ := Manager.mem_hooksOn.mp ht
    obtain ⟨d, b, hd, hspec⟩ := Manager.hook?_eq_some_iff.mp hhook
    have hkind : t ∈ m.ofKind .webhook :=
      Manager.mem_ofKind.mpr ⟨hmem, d, b, hd, by rw [TriggerDefinition.kind, hspec]; rfl⟩
    rw [hnone] at hkind
    cases hkind

/-- Whether the parts of a site agree with the triggers that are registered. -/
structure Orderly (s : Site) : Prop where
  /-- No trigger in the table is disposed of, and none is registered twice. -/
  alive : ∀ t ∈ s.manager.table,
    ∃ live, s.manager.triggers[t]? = some live ∧ live.disposed = false
  registered_once : s.manager.table.Nodup
  /-- The routes are the paths of the webhooks, each once, with its webhooks in the order of the
  table, and nothing else. -/
  routes : ∀ path ts, (path, ts) ∈ s.manager.routes ↔ ts = s.manager.hooksOn path ∧ ts ≠ []
  paths_once : s.manager.routes.names.Nodup
  /-- Every timer in the table has exactly one tick to come. -/
  timer : ∀ t ∈ s.manager.ofKind .cron, s.manager.alarms.keys.count (.tick t) = 1
  no_other_timer : ∀ t, .tick t ∈ s.manager.alarms.keys → t ∈ s.manager.ofKind .cron
  /-- The changes that are waited for belong to watches in the table. -/
  pending : ∀ t path kind, .change t path kind ∈ s.manager.alarms.keys →
    t ∈ s.manager.ofKind .watch
  /-- An alarm does what its key stands for. -/
  tasks : ∀ a ∈ s.manager.alarms.live, a.key.Suits a.item
  /-- There is a listener if there is a webhook, and then it is on the port that was set when a
  refresh was completed last. -/
  listening : s.manager.listener.isSome = true ↔ s.manager.ofKind .webhook ≠ []
  port : ∀ p, s.manager.listener = some p → s.refreshedOn = some p
  /-- No refresh is left half done. -/
  idle : s.manager.passes = []

/-- **Good order.** Whatever operations are carried out from the beginning, after each of them
nothing is left of triggers that are no longer registered, and nothing is missing of those that
are. -/
theorem orderly (settings : TriggerSettings) (tree : FileTree) (ops : List Operation) :
    ((Site.mk (.new settings) tree none).operateAll ops).Orderly := by
  have hupkept := (upkept_new settings tree).operateAll ops
  generalize (Site.mk (.new settings) tree none).operateAll ops = s at hupkept
  obtain ⟨hwired, hsettled, hserved⟩ := hupkept
  have hbound := hsettled.bound
  constructor
  case alive =>
    intro t ht
    obtain ⟨d, hd⟩ := hwired.alive t ht
    obtain ⟨live, hl, hstanding⟩ := Option.map_eq_some_iff.mp hd
    exact ⟨live, hl, congrArg Prod.snd hstanding⟩
  case registered_once => exact hwired.nodup
  case routes => exact mem_routes hwired
  case paths_once =>
    refine hwired.ordered.imp fun {first later} (hlt : first < later) => ?_
    rintro rfl
    exact String.lt_irrefl _ hlt
  case timer =>
    intro t ht
    exact List.count_eq_one_of_mem hwired.sound.keys ((hwired.ticks t).mpr ht)
  case no_other_timer => exact fun t => (hwired.ticks t).mp
  case pending => exact hwired.changes
  case tasks => exact hwired.sound.suited
  case listening =>
    rw [ne_eq, ← routes_isEmpty_iff hwired, hbound]
    by_cases hempty : s.manager.routes.isEmpty = true
    · simp [hempty]
    · cases hport : s.refreshedOn with
      | none => exact absurd (hserved hport) hempty
      | some port => simp [hempty]
  case port =>
    intro p hp
    rw [hbound] at hp
    split at hp
    · cases hp
    · exact hp
  case idle => exact hsettled.idle.1

end Site

end Workflow
