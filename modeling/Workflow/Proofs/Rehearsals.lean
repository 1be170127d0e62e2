import Workflow.Proofs.ChainedRuns
import Workflow.Proofs.Upkeep

/- Rehearsals of a manager. The bus and the runs leave alone the world of those who ask for
   runs: whatever their customs keep to, the whole rehearsal keeps to (`Customs.Within`). The
   customs of a manager are operations on it and nothing else, and so is every call
   (`operations_of_calls`). -/
namespace Workflow

/-! ## Settings -/

theorem Manager.settings_settleWithin (m : Manager) (now : Nat) (tree : FileTree)
    (bindable : Bool) (fuel : Nat) :
    (settleWithin now tree bindable fuel m).settings = m.settings := by
  induction fuel generalizing m with
  | zero => rfl
  | succ fuel ih =>
    unfold settleWithin
    split
    · rfl
    · rw [ih]
      exact m.settings_perform (.proceed now tree bindable 0)

theorem Manager.settings_requestRefreshes (more : Nat) (m : Manager) :
    (requestRefresh^[more] m).settings = m.settings := by
  induction more generalizing m with
  | zero => rfl
  | succ more ih =>
    rw [Function.iterate_succ_apply, ih]
    exact m.settings_perform .refresh

/-- The settings of a manager are those that it was made with. -/
theorem Site.settings_operate (s : Site) (op : Operation) :
    (s.operate op).manager.settings = s.manager.settings := by
  have hperform := s.manager.settings_perform
  cases op with
  | start now =>
    show (Manager.settleWithin now s.tree true _ s.manager.start).settings = _
    rw [Manager.settings_settleWithin]
    exact hperform .start
  | refresh now more =>
    show (Manager.settleWithin now s.tree true _ _).settings = _
    rw [Manager.settings_settleWithin, Manager.settings_requestRefreshes]
    exact hperform .refresh
  | edit tree => rfl
  | change now path kind => exact hperform (.change now path kind)
  | ring now timestamp alarm => exact hperform (.ring now timestamp alarm)
  | fire now id event => exact hperform (.fire now id event)
  | request now r => exact hperform (.request now r)
  | setPort port => rfl
  | shutdown => rfl

theorem Site.settings_operateAll (s : Site) (ops : List Operation) :
    (s.operateAll ops).manager.settings = s.manager.settings := by
  induction ops generalizing s with
  | nil => rfl
  | cons op rest ih => exact (ih (s.operate op)).trans (s.settings_operate op)

namespace Rehearsal

/-! ## What a rehearsal keeps -/

section Kept

variable {ω τ : Type}

/-- Whether something that holds of rehearsals is kept by all that happens in them: by each step,
when a ready turn comes to the agenda, and when the turns of a time become ready. -/
structure Play.Kept (customs : Customs ω τ) (P : Play ω τ → Prop) : Prop where
  step : ∀ {p}, P p → P (Exchange.step (Stage.conduct customs) p)
  turn : ∀ {p : Play ω τ} {t rest}, P p → p.memory.ready = t :: rest →
    P (({ p with memory := { p.memory with ready := rest } } : Play ω τ).ahead [.work (.turn t)])
  arrive : ∀ {p : Play ω τ}, P p → ∀ time, P (p.arrive time)

namespace Play.Kept

variable {customs : Customs ω τ} {P : Play ω τ → Prop}

theorem settle (h : Kept customs P) (fuel : Nat) {p : Play ω τ} (hp : P p) :
    P (Exchange.settle (Stage.conduct customs) fuel p) := by
  induction fuel generalizing p with
  | zero => exact hp
  | succ fuel ih =>
    unfold Exchange.settle
    split
    · exact hp
    · exact ih (h.step hp)

theorem settleWithin (h : Kept customs P) (fuel : Nat) {p : Play ω τ} (hp : P p) :
    P (p.settleWithin customs fuel) := by
  induction fuel generalizing p with
  | zero => exact hp
  | succ fuel ih =>
    have hsettle := h.settle Play.fuel hp
    unfold Play.settleWithin
    dsimp only
    generalize Exchange.settle (Stage.conduct customs) Play.fuel p = q at hsettle ⊢
    split
    · exact hsettle
    · rename_i t rest hready
      exact ih (h.turn hsettle hready)

theorem advanceWithin (h : Kept customs P) (fuel time : Nat) {p : Play ω τ} (hp : P p) :
    P (Play.advanceWithin customs fuel time p) := by
  induction fuel generalizing p with
  | zero => exact hp
  | succ fuel ih =>
    unfold Play.advanceWithin
    split
    · split
      · exact ih (h.settleWithin Play.fuel (h.arrive hp _))
      · exact h.arrive hp time
    · exact h.arrive hp time

end Play.Kept

end Kept

/-! ## Worlds -/

/-- Whether customs take a world nowhere but where a relation allows. -/
structure Customs.Within {ω τ : Type} (customs : Customs ω τ) (R : ω → ω → Prop) : Prop where
  refl : ∀ w, R w w
  trans : ∀ {u v w}, R u v → R v w → R u w
  errand : ∀ s task, R s.world (customs.errand s task).1.world
  ended : ∀ s id, R s.world (customs.ended s id).1.world

section Worlds

variable {ω τ : Type} {customs : Customs ω τ} {R : ω → ω → Prop}

namespace Stage

theorem hear_world (s : Stage ω τ) (listener : Nat) (e : Event) :
    (s.hear listener e).1.world = s.world := by
  unfold hear
  dsimp only
  split
  · rfl
  · split <;> rfl

theorem wake_world (s : Stage ω τ) (id : String) : (s.wake id).world = s.world := by
  unfold wake
  split <;> rfl

theorem control_world (s : Stage ω τ) (target : Option Nat) (action : ControlAction) :
    (s.control target action).1.world = s.world := by
  have hdone : ∀ (s : Stage ω τ) (changed : Option String) (result : Option Bool)
      (event : Option Event), (control.done target action s changed result event).1.world =
        s.world := by
    intro s changed result event
    cases changed with
    | none => rfl
    | some id => exact s.wake_world id
  unfold control
  cases target with
  | none => exact hdone _ _ _ _
  | some number =>
    dsimp only
    split
    · exact hdone _ _ _ _
    · exact hdone _ _ _ _

theorem invoke_world (s : Stage ω τ) (i : Invocation) : (s.invoke i).1.world = s.world := by
  unfold invoke
  dsimp only
  split <;> rfl

theorem take_within (h : customs.Within R) (s : Stage ω τ) (t : Turn τ) :
    R s.world (s.take customs t).1.world := by
  unfold take
  cases t with
  | errand task => exact h.errand s task
  | answer id outcome => exact h.refl _
  | advance id =>
    dsimp only
    split
    · exact h.refl _
    · rw [invoke_world]
      exact h.refl _
    · split
      · exact h.refl _
      · split
        · exact h.ended s id
        · split <;> exact h.refl _

theorem perform_within (h : customs.Within R) (s : Stage ω τ) (deed : Deed τ) :
    R s.world (s.perform customs deed).1.world := by
  unfold perform
  cases deed with
  | turn t => exact s.take_within h t
  | control target action =>
    dsimp only
    rw [control_world]
    exact h.refl _
  | rest id delay outcome =>
    dsimp only
    split
    · exact s.take_within h _
    · exact h.refl _
  | note entry => exact h.refl _

end Stage

namespace Play

theorem step_within (h : customs.Within R) (p : Play ω τ) :
    R p.memory.world (Exchange.step (Stage.conduct customs) p).memory.world := by
  unfold Exchange.step
  split
  · exact h.refl _
  · dsimp only [Stage.conduct]
    rw [Stage.hear_world]
    exact h.refl _
  · exact h.refl _
  · exact h.refl _
  · exact h.refl _
  · exact p.memory.perform_within h _

/-- A rehearsal takes a world nowhere but where its customs may take it. -/
theorem kept_within (h : customs.Within R) (w : ω) :
    Kept customs fun p => R w p.memory.world where
  step hp := h.trans hp (step_within h _)
  turn hp _ := hp
  arrive hp _ := hp

end Play

end Worlds

/-! ## Operations in a rehearsal -/

/-- The manager and the documents of a rehearsal, when the last refresh was on a port. -/
def Watch.site (w : Watch) (port : Option Nat) : Site := ⟨w.manager, w.tree, port⟩

/-- Whether a world comes of operations on another one, if listeners can be bound there. -/
def Watch.Leads (w w' : Watch) : Prop :=
  Http.isLocalHost w.manager.settings.webhookHost = true → ∀ port, (w.site port).Upkept →
    ∃ ops port', w'.site port' = (w.site port).operateAll ops

namespace Watch

variable {u v w : Watch}

/-- A world in which neither the manager nor a document has changed. -/
theorem Leads.still (hm : v.manager = u.manager) (ht : v.tree = u.tree) : u.Leads v := by
  intro _ port _
  refine ⟨[], port, ?_⟩
  rw [site, hm, ht]
  rfl

theorem Leads.trans (huv : u.Leads v) (hvw : v.Leads w) : u.Leads w := by
  intro hlocal port hupkept
  obtain ⟨first, port', hfirst⟩ := huv hlocal port hupkept
  have hsettings : v.manager.settings = u.manager.settings := by
    have hoperated := (u.site port).settings_operateAll first
    rw [← hfirst] at hoperated
    exact hoperated
  have hupkept' : (v.site port').Upkept := hfirst ▸ hupkept.operateAll first
  obtain ⟨later, port'', hlater⟩ := hvw (hsettings ▸ hlocal) port' hupkept'
  refine ⟨first ++ later, port'', ?_⟩
  rw [hlater, hfirst, Site.operateAll, Site.operateAll, Site.operateAll, List.foldl_append]

/-- A world after one operation. -/
theorem Leads.one (op : Operation) (ht : v.tree = u.tree)
    (h : ∀ port, ((u.site port).operate op).tree = u.tree ∧
      (Http.isLocalHost u.manager.settings.webhookHost = true →
        v.manager = ((u.site port).operate op).manager)) : u.Leads v := by
  intro hlocal port _
  obtain ⟨htree, hmanager⟩ := h port
  refine ⟨[op], ((u.site port).operate op).refreshedOn, ?_⟩
  rw [site, ht, ← htree, hmanager hlocal]
  rfl

end Watch

namespace WatchStage

/-- Alarms that are waited for change nothing yet. -/
theorem awaits_world (s : WatchStage) (alarms : List (Alarm AlarmKey AlarmTask)) :
    (alarms.foldl await s).world = s.world := by
  induction alarms generalizing s with
  | nil => rfl
  | cons a rest ih =>
    rw [List.foldl_cons, ih]
    unfold await
    split <;> rfl

theorem manage_world (s : WatchStage) (m : Manager) :
    (s.manage m).world = { s.world with manager := m } :=
  awaits_world _ _

/-- A run that is asked for changes neither the manager nor a document. -/
theorem ask_leads (s : WatchStage) (c : Chain) : s.world.Leads (s.ask c).1.world := by
  unfold ask
  dsimp only
  cases hi : s.world.invoker with
  | scripted results delay =>
    dsimp only
    split <;> exact .still rfl rfl
  | runner dryRun =>
    dsimp only
    cases hload : Pipeline.load s.world.tree c.request.pipeline with
    | error e => exact .still rfl rfl
    | ok pipeline =>
      simp only [bind, Except.bind]
      split
      · exact .still rfl rfl
      · rename_i s' number actions hbegin
        obtain ⟨hworld, -, -⟩ := Stage.begin_runs hbegin
        exact .still (by rw [hworld]) (by rw [hworld])

theorem goOn_leads (s : WatchStage) (c : Chain) (success : Bool) :
    s.world.Leads (s.goOn c success).1.world := by
  unfold goOn
  split
  · exact s.ask_leads _
  · exact .still rfl rfl

/-- An act on the manager by which the rehearsal goes on. -/
theorem manage_leads (s : WatchStage) {m : Manager} (op : Operation)
    (h : ∀ port, (s.world.site port).operate op = { s.world.site port with manager := m }) :
    s.world.Leads (s.manage m).world := by
  refine .one op ?_ fun port => ?_
  · rw [manage_world]
  · rw [manage_world, h]
    exact ⟨rfl, fun _ => rfl⟩

/-- Refreshes that have been asked for. -/
theorem refreshed_leads (s : WatchStage) {change : Manager → Manager} (op : Operation)
    (h : ∀ port, (s.world.site port).operate op =
      (s.world.site port).settle s.now (change s.world.manager)) :
    s.world.Leads (s.refreshed change).world := by
  refine .one op ?_ fun port => ?_
  · rw [refreshed, manage_world]
  · rw [refreshed, manage_world, h]
    refine ⟨rfl, fun hlocal => ?_⟩
    rw [hlocal]
    rfl

theorem run_leads (s : WatchStage) (e : Errand) : s.world.Leads (s.run e).1.world := by
  cases e with
  | ring number =>
    have hring : s.world.Leads
        (s.manage (s.world.manager.ring s.now s.world.timestamp number).1).world :=
      s.manage_leads (.ring s.now s.world.timestamp number) fun port => rfl
    unfold run
    dsimp only
    cases (s.world.manager.ring s.now s.world.timestamp number).2 with
    | nothing => exact hring
    | firing f => exact hring
    | refresh => exact hring
  | begin f => exact s.ask_leads _
  | goOn c success => exact s.goOn_leads c success
  | refresh => exact s.refreshed_leads (.refresh s.now 0) fun port => rfl

theorem ended_leads (s : WatchStage) (id : String) : s.world.Leads (s.ended id).1.world := by
  unfold ended
  split
  · exact .still rfl rfl
  · exact goOn_leads
      { s with world := { s.world with waiting := Table.erase s.world.waiting id } } _ _

theorem customs_within : customs.Within Watch.Leads where
  refl _ := .still rfl rfl
  trans := Watch.Leads.trans
  errand := run_leads
  ended := ended_leads

/-- A call is carried out as operations. -/
theorem call_leads (s : WatchStage) (c : ManagerCall) : s.world.Leads (s.call c).1.world := by
  cases c with
  | start => exact s.refreshed_leads (.start s.now) fun port => rfl
  | refresh times =>
    cases times with
    | zero =>
      -- nothing is asked for, and nothing is under way
      intro hlocal port hupkept
      have hidle : s.world.manager.passes = [] := hupkept.settled.idle.1
      have hworld : (s.call (.refresh 0)).1.world = s.world := by
        show (s.manage (Manager.settleWithin _ _ _ _ s.world.manager)).world = s.world
        rw [manage_world, Manager.settleWithin_idle hidle]
      rw [hworld]
      exact ⟨[], port, rfl⟩
    | succ more =>
      refine s.refreshed_leads (.refresh s.now more) fun port => ?_
      rw [List.foldl_const, List.length_range]
      rfl
  | fire id event => exact s.manage_leads (.fire s.now id event) fun port => rfl
  | request r => exact s.manage_leads (.request s.now r) fun port => rfl
  | change path kind => exact s.manage_leads (.change s.now path kind) fun port => rfl
  | advance ms => exact .still rfl rfl
  | setPort port =>
    have hport : s.world.Leads { s.world with manager := s.world.manager.setPort port } :=
      .one (.setPort port) rfl fun _ => ⟨rfl, fun _ => rfl⟩
    exact hport.trans (refreshed_leads
      { s with world := { s.world with manager := s.world.manager.setPort port } }
      (.refresh s.now 0) fun _ => rfl)
  | shutdown => exact s.manage_leads .shutdown fun port => rfl

end WatchStage

/-- A call, with all that follows from it, is carried out as operations. -/
theorem callManager_leads (p : Play Watch Errand) (c : ManagerCall) :
    p.memory.world.Leads (callManager p c).1.memory.world := by
  have hkept := fun w => Play.kept_within WatchStage.customs_within w
  have hsettled : ∀ s : WatchStage,
      s.world.Leads (Play.settled WatchStage.customs { p with memory := s }).memory.world :=
    fun s => (hkept s.world).settleWithin _ (p := { p with memory := s }) (.still rfl rfl)
  have hcall := WatchStage.call_leads p.memory c
  cases c with
  | advance ms => exact (hkept p.memory.world).advanceWithin _ _ (.still rfl rfl)
  | start | refresh | fire | request | change | setPort | shutdown =>
    exact hcall.trans (hsettled _)

/-- A rehearsal with its documents edited. -/
def edit (p : Play Watch Errand) (tree : FileTree) : Play Watch Errand :=
  { p with memory := { p.memory with world := { p.memory.world with tree } } }

/-- A rehearsal after calls, between which the documents may be edited. -/
def callAll (p : Play Watch Errand) : List (ManagerCall ⊕ FileTree) → Play Watch Errand
  | [] => p
  | .inl c :: rest => callAll (callManager p c).1 rest
  | .inr tree :: rest => callAll (edit p tree) rest

theorem callAll_leads (p : Play Watch Errand) (calls : List (ManagerCall ⊕ FileTree)) :
    p.memory.world.Leads (callAll p calls).memory.world := by
  induction calls generalizing p with
  | nil => exact .still rfl rfl
  | cons c rest ih =>
    cases c with
    | inl c => exact (callManager_leads p c).trans (ih _)
    | inr tree =>
      have hedit : p.memory.world.Leads (edit p tree).memory.world :=
        fun _ port _ => ⟨[.edit tree], port, rfl⟩
      exact hedit.trans (ih (edit p tree))

/-- **A rehearsal is a run of operations.** Whatever is called from the beginning, with the alarms
that ring and the runs that are made meanwhile, the manager is where some operations lead, if the
listener's host is one of this machine. -/
theorem operations_of_calls {p : Play Watch Errand} {settings : TriggerSettings}
    (hnew : p.memory.world.manager = .new settings)
    (hlocal : Http.isLocalHost settings.webhookHost = true)
    (calls : List (ManagerCall ⊕ FileTree)) :
    ∃ ops port, (callAll p calls).memory.world.site port =
      (Site.mk (.new settings) p.memory.world.tree none).operateAll ops := by
  have hsite : p.memory.world.site none = ⟨.new settings, p.memory.world.tree, none⟩ := by
    rw [Watch.site, hnew]
  have hupkept : (p.memory.world.site none).Upkept := hsite ▸ Site.upkept_new settings _
  have hleads := callAll_leads p calls
  have hhost : Http.isLocalHost p.memory.world.manager.settings.webhookHost = true := by
    rw [hnew]
    exact hlocal
  rw [← hsite]
  exact hleads hhost none hupkept

end Rehearsal

end Workflow
