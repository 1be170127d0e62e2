import Workflow.Manager.Webhook
import Workflow.Proofs.Registrations

/- What comes of a request to the listener. `Asking` says, after some of the triggers of
   a route have been asked, which of them have fired and what has become of the
   cooldowns; asking one more keeps it (`Asking.step`), so it holds of all of them, and
   the answer follows (`handled`). A trigger is asked for its secret before
   its cooldown, so that a request without the secret leaves no trace. -/
namespace Workflow

/-- The trigger with its cooldown begun. -/
def LiveTrigger.rested (live : LiveTrigger) (now : Nat) : LiveTrigger :=
  { live with cooldown := { live.cooldown with last := some now } }

theorem WebhookAnswer.status_ofCounts (n : Nat) (cooling : Bool) :
    (ofCounts n cooling).status = if n = 0 then if cooling then 429 else 401 else 202 := by
  unfold ofCounts
  cases n <;> cases cooling <;> rfl

theorem WebhookAnswer.status_ofCounts_cases (n : Nat) (cooling : Bool) :
    (ofCounts n cooling).status = 202 ∨ (ofCounts n cooling).status = 429 ∨
      (ofCounts n cooling).status = 401 := by
  rw [status_ofCounts]
  cases n <;> cases cooling <;> simp

theorem WebhookAnswer.fired_ofCounts (n : Nat) (cooling : Bool) :
    (ofCounts n cooling).fired = n := by
  unfold ofCounts
  cases n <;> cases cooling <;> rfl

namespace Manager

/-- Whether a trigger stands on the path of a request and takes its method. -/
def OnRoute (m : Manager) (r : Http.Request) (t : Nat) : Prop :=
  t ∈ m.routed r.target.path ∧ ∃ hook, m.hook? t = some hook ∧ hook.method = r.method

/-- Whether a trigger is a webhook that is not disposed of and lets a request in: it has no secret,
or the secret header carries it. -/
def Authorises (m : Manager) (r : Http.Request) (t : Nat) : Prop :=
  ∃ live hook, m.triggers[t]? = some live ∧ live.disposed = false ∧
    live.definition.spec = .webhook hook ∧
    ∀ secret, hook.secret = some secret → r.headerText? m.settings.headerName = some secret

/-- Whether no accepted firing of a trigger lies less than its window back. -/
def Cooled (m : Manager) (now t : Nat) : Prop :=
  ∃ live, m.triggers[t]? = some live ∧
    ∀ last, live.cooldown.last = some last → live.cooldown.window ≤ now - last

theorem admits_iff {hook : WebhookSpec} {provided : Option String} :
    hook.admits provided = true ↔
      ∀ secret, hook.secret = some secret → provided = some secret := by
  unfold WebhookSpec.admits
  cases hook.secret <;> simp

theorem accepts_iff {c : Cooldown} {now : Nat} :
    c.accepts now = true ↔ ∀ last, c.last = some last → c.window ≤ now - last := by
  unfold Cooldown.accepts
  cases c.last <;> simp

/-- What an attempt of a trigger comes to. -/
inductive Attempt (m : Manager) (now t : Nat) (event : Json) : Manager × Option Firing → Prop where
  | fired {live : LiveTrigger} (known : m.triggers[t]? = some live)
      (alive : live.disposed = false) (cooled : live.cooldown.accepts now = true) :
      Attempt m now t event
        ({ m with triggers := m.triggers.set t (live.rested now) },
          some ⟨t, live.definition, event⟩)
  | refused (why : ∀ live, m.triggers[t]? = some live → live.disposed = false →
      live.cooldown.accepts now = false) : Attempt m now t event (m, none)

theorem attempt_spec (m : Manager) (now t : Nat) (event : Json) :
    Attempt m now t event (m.attempt now t event) := by
  unfold attempt
  cases hl : m.triggers[t]? with
  | none => exact .refused (by simp [hl])
  | some live =>
    dsimp only
    by_cases hd : live.disposed = true
    · rw [if_pos hd]
      exact .refused (by simp [hl, hd])
    · rw [if_neg hd]
      have hd := Bool.eq_false_iff.mpr hd
      by_cases ha : live.cooldown.accepts now = true
      · simpa [Cooldown.acquire, ha, LiveTrigger.rested] using Attempt.fired hl hd ha
      · simpa [Cooldown.acquire, ha] using
          Attempt.refused (by simpa [hl, hd] using ha)

/-- What is known after these triggers have been asked for a request. -/
structure Asking (m : Manager) (now : Nat) (r : Http.Request) (asked : List Nat) (a : Asked) :
    Prop where
  frame : a.manager = { m with triggers := a.manager.triggers }
  order : (a.firings.map (·.trigger)).Sublist asked
  mem_iff : ∀ t, t ∈ a.firings.map (·.trigger) ↔ t ∈ asked ∧ m.Authorises r t ∧ m.Cooled now t
  fired : ∀ t ∈ a.firings.map (·.trigger),
    a.manager.triggers[t]? = (m.triggers[t]?).map (·.rested now)
  kept : ∀ t, t ∉ a.firings.map (·.trigger) → a.manager.triggers[t]? = m.triggers[t]?
  cooling : a.firings = [] →
    (a.cooling = true ↔ ∃ t ∈ asked, m.Authorises r t ∧ ¬ m.Cooled now t)
  firings : ∀ f ∈ a.firings, f.event = requestEvent r ∧
    ∃ live, m.triggers[f.trigger]? = some live ∧ f.definition = live.definition

theorem Asking.start (m : Manager) (now : Nat) (r : Http.Request) :
    Asking m now r [] { manager := m } := by
  constructor <;> simp

/-- A trigger is the same but for the cooldown, whether it has fired meanwhile or not. -/
theorem Asking.live {m : Manager} {now : Nat} {r : Http.Request} {asked : List Nat} {a : Asked}
    (h : Asking m now r asked a) {t : Nat} {live : LiveTrigger}
    (hl : a.manager.triggers[t]? = some live) :
    ∃ old, m.triggers[t]? = some old ∧ live.definition = old.definition ∧
      live.disposed = old.disposed ∧ live.cooldown.window = old.cooldown.window ∧
      (t ∈ a.firings.map (·.trigger) ∧ live = old.rested now ∨
        t ∉ a.firings.map (·.trigger) ∧ live = old) := by
  by_cases hf : t ∈ a.firings.map (·.trigger)
  · rw [h.fired t hf] at hl
    obtain ⟨old, ho, rfl⟩ := Option.map_eq_some_iff.mp hl
    exact ⟨old, ho, rfl, rfl, rfl, .inl ⟨hf, rfl⟩⟩
  · rw [h.kept t hf] at hl
    exact ⟨live, hl, rfl, rfl, rfl, .inr ⟨hf, rfl⟩⟩

theorem Asking.hook? {m : Manager} {now : Nat} {r : Http.Request} {asked : List Nat} {a : Asked}
    (h : Asking m now r asked a) (t : Nat) : a.manager.hook? t = m.hook? t := by
  unfold Manager.hook?
  by_cases hf : t ∈ a.firings.map (·.trigger)
  · rw [h.fired t hf]
    cases m.triggers[t]? <;> rfl
  · rw [h.kept t hf]

theorem Asking.disposed {m : Manager} {now : Nat} {r : Http.Request} {asked : List Nat}
    {a : Asked} (h : Asking m now r asked a) (t : Nat) :
    (a.manager.triggers[t]?).map (·.disposed) = (m.triggers[t]?).map (·.disposed) := by
  by_cases hf : t ∈ a.firings.map (·.trigger)
  · rw [h.fired t hf]
    cases m.triggers[t]? <;> rfl
  · rw [h.kept t hf]

theorem authorises_iff {m : Manager} {r : Http.Request} {t : Nat} :
    m.Authorises r t ↔
      (m.hook? t).any (·.admits (r.headerText? m.settings.headerName)) = true ∧
        ((m.triggers[t]?).map (·.disposed)).getD true = false := by
  cases hl : m.triggers[t]? with
  | none => simp [Authorises, Manager.hook?, hl]
  | some live =>
    cases hs : live.definition.spec with
    | webhook hook =>
      simp only [Authorises, Manager.hook?, hl, hs, Option.any_some, admits_iff, Option.map_some,
        Option.getD_some, Option.some.injEq]
      constructor
      · rintro ⟨_, hook', rfl, hd, hw, hsec⟩
        rw [hs] at hw
        cases hw
        exact ⟨hsec, hd⟩
      · rintro ⟨hsec, hd⟩
        exact ⟨live, hook, rfl, hd, hs, hsec⟩
    | cron interval => simp [Authorises, Manager.hook?, hl, hs]
    | watch watch => simp [Authorises, Manager.hook?, hl, hs]

/-- A trigger that does not authorise the request is passed over. -/
theorem ask_unauthorised {m : Manager} {now : Nat} {r : Http.Request} {asked : List Nat}
    {a : Asked} (h : Asking m now r asked a) {t : Nat} (hu : ¬ m.Authorises r t) :
    ask now (r.headerText? m.settings.headerName) (requestEvent r) a t = a := by
  rw [authorises_iff, ← h.hook?, ← h.disposed] at hu
  unfold ask
  by_cases hadmits : (a.manager.hook? t).any
      (·.admits (r.headerText? m.settings.headerName)) = true
  · have hdisposed : ((a.manager.triggers[t]?).map (·.disposed)).getD true = true := by
      by_cases hd : ((a.manager.triggers[t]?).map (·.disposed)).getD true = true
      · exact hd
      · exact absurd ⟨hadmits, Bool.eq_false_iff.mpr hd⟩ hu
    dsimp only
    rw [if_neg (by simp [hadmits]), if_pos hdisposed]
  · dsimp only
    rw [if_pos (by simpa using hadmits)]

/-- A trigger that authorises the request is left to its cooldown. -/
theorem ask_authorised {m : Manager} {now : Nat} {r : Http.Request} {asked : List Nat}
    {a : Asked} (h : Asking m now r asked a) {t : Nat} (hu : m.Authorises r t) :
    ask now (r.headerText? m.settings.headerName) (requestEvent r) a t =
      match a.manager.attempt now t (requestEvent r) with
      | (m, some firing) => { a with manager := m, firings := a.firings ++ [firing] }
      | (m, none) => { a with manager := m, cooling := true } := by
  rw [authorises_iff, ← h.hook?, ← h.disposed] at hu
  unfold ask
  exact (if_neg (by simp [hu.1])).trans (if_neg (by simp [hu.2]))

theorem cooled_iff {m : Manager} {now t : Nat} {live : LiveTrigger}
    (hl : m.triggers[t]? = some live) : m.Cooled now t ↔ live.cooldown.accepts now = true := by
  simp [Cooled, hl, accepts_iff]

theorem Asking.pass_over {m : Manager} {now : Nat} {r : Http.Request} {asked : List Nat}
    {a : Asked} (h : Asking m now r asked a) {t : Nat} (hu : ¬ m.Authorises r t) :
    Asking m now r (asked ++ [t]) a where
  frame := h.frame
  order := h.order.trans (List.sublist_append_left asked [t])
  mem_iff i := by
    rw [h.mem_iff, List.mem_append, List.mem_singleton]
    constructor
    · rintro ⟨hi, hrest⟩
      exact ⟨.inl hi, hrest⟩
    · rintro ⟨hi | rfl, hrest⟩
      · exact ⟨hi, hrest⟩
      · exact absurd hrest.1 hu
  fired := h.fired
  kept := h.kept
  cooling hn := by
    rw [h.cooling hn]
    constructor
    · rintro ⟨i, hi, hrest⟩
      exact ⟨i, List.mem_append_left _ hi, hrest⟩
    · rintro ⟨i, hi, hrest⟩
      rcases List.mem_append.mp hi with hi | hi
      · exact ⟨i, hi, hrest⟩
      · rw [List.mem_singleton] at hi
        rw [hi] at hrest
        exact absurd hrest.1 hu
  firings := h.firings

theorem Asking.fire {m : Manager} {now : Nat} {r : Http.Request} {asked : List Nat} {a : Asked}
    (h : Asking m now r asked a) {t : Nat} {live : LiveTrigger} (hu : m.Authorises r t)
    (hl : a.manager.triggers[t]? = some live) (ha : live.cooldown.accepts now = true) :
    Asking m now r (asked ++ [t])
      { a with
        manager := { a.manager with triggers := a.manager.triggers.set t (live.rested now) }
        firings := a.firings ++ [⟨t, live.definition, requestEvent r⟩] } := by
  obtain ⟨old, ho, hdef, -, -, hcase⟩ := h.live hl
  have hcooled : m.Cooled now t := by
    rcases hcase with ⟨hf, -⟩ | ⟨-, rfl⟩
    · exact ((h.mem_iff t).mp hf).2.2
    · exact (cooled_iff ho).mpr ha
  have hrested : live.rested now = old.rested now := by
    rcases hcase with ⟨-, rfl⟩ | ⟨-, rfl⟩ <;> rfl
  have htriggers : ∀ i, (a.manager.triggers.set t (live.rested now))[i]? =
      if t = i then some (old.rested now) else a.manager.triggers[i]? := by
    intro i
    have hlt : t < a.manager.triggers.length := (List.getElem?_eq_some_iff.mp hl).1
    rw [List.getElem?_set, hrested]
    simp [hlt]
  constructor
  case frame =>
    rw [h.frame]
  case order =>
    rw [List.map_append]
    exact h.order.append (List.Sublist.refl [t])
  case mem_iff =>
    intro i
    simp only [List.map_append, List.map_cons, List.map_nil, List.mem_append, List.mem_singleton,
      h.mem_iff i]
    constructor
    · rintro (⟨hi, hrest⟩ | rfl)
      · exact ⟨.inl hi, hrest⟩
      · exact ⟨.inr rfl, hu, hcooled⟩
    · rintro ⟨hi | rfl, hrest⟩
      · exact .inl ⟨hi, hrest⟩
      · exact .inr rfl
  case fired =>
    intro i hi
    rw [htriggers]
    by_cases hti : t = i
    · -- the trigger asked now is as it was before the request, or has already rested
      rw [if_pos hti, ← hti, ho]
      rfl
    · rw [if_neg hti]
      refine h.fired i ?_
      simpa [Ne.symm hti] using hi
  case kept =>
    intro i hi
    have hti : ¬ t = i := by
      rintro rfl
      simp at hi
    rw [htriggers, if_neg hti]
    refine h.kept i fun hmem => hi ?_
    rw [List.map_append]
    exact List.mem_append_left _ hmem
  case cooling =>
    intro hn
    simp at hn
  case firings =>
    intro f hf
    rcases List.mem_append.mp hf with hf | hf
    · exact h.firings f hf
    · rw [List.mem_singleton] at hf
      subst hf
      exact ⟨rfl, old, ho, hdef⟩

theorem Asking.refuse {m : Manager} {now : Nat} {r : Http.Request} {asked : List Nat} {a : Asked}
    (h : Asking m now r asked a) {t : Nat} {live : LiveTrigger} (hu : m.Authorises r t)
    (hl : a.manager.triggers[t]? = some live) (ha : live.cooldown.accepts now = false) :
    Asking m now r (asked ++ [t]) { a with cooling := true } := by
  obtain ⟨old, ho, -, -, -, hcase⟩ := h.live hl
  constructor
  case frame => exact h.frame
  case order => exact h.order.trans (List.sublist_append_left asked [t])
  case mem_iff =>
    intro i
    dsimp only
    rw [h.mem_iff i, List.mem_append, List.mem_singleton]
    constructor
    · rintro ⟨hi, hrest⟩
      exact ⟨.inl hi, hrest⟩
    · rintro ⟨hi | rfl, hrest⟩
      · exact ⟨hi, hrest⟩
      · -- a trigger that is refused now can only have fired before in this request
        rcases hcase with ⟨hf, -⟩ | ⟨-, rfl⟩
        · exact (h.mem_iff i).mp hf
        · rw [cooled_iff ho, ha] at hrest
          exact absurd hrest.2 (by simp)
  case fired => exact h.fired
  case kept => exact h.kept
  case cooling =>
    intro hn
    refine ⟨fun _ => ⟨t, by simp, hu, ?_⟩, fun _ => rfl⟩
    rcases hcase with ⟨hf, -⟩ | ⟨-, rfl⟩
    · have hn : a.firings = [] := hn
      simp [hn] at hf
    · rw [cooled_iff ho, ha]
      simp
  case firings => exact h.firings

/-- One more trigger asked. -/
theorem Asking.step {m : Manager} {now : Nat} {r : Http.Request} {asked : List Nat} {a : Asked}
    (h : Asking m now r asked a) (t : Nat) :
    Asking m now r (asked ++ [t])
      (ask now (r.headerText? m.settings.headerName) (requestEvent r) a t) := by
  -- the secret is asked for before the cooldown
  by_cases hu : m.Authorises r t
  · rw [ask_authorised h hu]
    have hs := attempt_spec a.manager now t (requestEvent r)
    generalize a.manager.attempt now t (requestEvent r) = out at hs
    cases hs with
    | fired hl _ ha => exact h.fire hu hl ha
    | refused why =>
      have hauth := authorises_iff.mp hu
      rw [← h.disposed] at hauth
      cases hl : a.manager.triggers[t]? with
      | none => simp [hl] at hauth
      | some live =>
        have hd : live.disposed = false := by simpa [hl] using hauth.2
        exact h.refuse hu hl (why live hl hd)
  · rw [ask_unauthorised h hu]
    exact h.pass_over hu

/-- All of some triggers asked. -/
theorem Asking.all {m : Manager} {now : Nat} {r : Http.Request} {asked : List Nat} {a : Asked}
    (h : Asking m now r asked a) (more : List Nat) :
    Asking m now r (asked ++ more)
      (more.foldl (ask now (r.headerText? m.settings.headerName) (requestEvent r)) a) := by
  induction more generalizing asked a with
  | nil => simpa using h
  | cons t rest ih =>
    have := ih (h.step t)
    simpa using this

/-- What a request handled comes to: the manager, the answer and the firings. -/
structure Handled (m : Manager) (now : Nat) (r : Http.Request) (m' : Manager)
    (answer : WebhookAnswer) (firings : List Firing) : Prop where
  not_found : answer.status = 404 ↔ m.routed r.target.path = []
  not_allowed : answer.status = 405 ↔ m.routed r.target.path ≠ [] ∧ ∀ t, ¬ m.OnRoute r t
  /-- In the order of the registrations. -/
  order : (firings.map (·.trigger)).Sublist (m.routed r.target.path)
  /-- If the path lists each trigger once. -/
  once : (m.routed r.target.path).Nodup → (firings.map (·.trigger)).Nodup
  fires_iff : ∀ t, t ∈ firings.map (·.trigger) ↔
    m.OnRoute r t ∧ m.Authorises r t ∧ m.Cooled now t
  firing : ∀ f ∈ firings, f.event = requestEvent r ∧
    ∃ live, m.triggers[f.trigger]? = some live ∧ f.definition = live.definition
  fired : answer.fired = firings.length
  accepted : answer.status = 202 ↔ firings ≠ []
  cooling : answer.status = 429 ↔
    firings = [] ∧ ∃ t, m.OnRoute r t ∧ m.Authorises r t ∧ ¬ m.Cooled now t
  unauthorized : answer.status = 401 ↔
    (∃ t, m.OnRoute r t) ∧ ∀ t, m.OnRoute r t → ¬ m.Authorises r t
  frame : m' = { m with triggers := m'.triggers }
  rested : ∀ t ∈ firings.map (·.trigger), m'.triggers[t]? = (m.triggers[t]?).map (·.rested now)
  kept : ∀ t, t ∉ firings.map (·.trigger) → m'.triggers[t]? = m.triggers[t]?
  /-- A trigger whose secret is not given is left as it was. -/
  unauthorised_kept : ∀ t, ¬ m.Authorises r t →
    t ∉ firings.map (·.trigger) ∧ m'.triggers[t]? = m.triggers[t]?
  unchanged : answer.status ≠ 202 → m' = m

/-- The triggers that are asked are those on the path that take the method. -/
theorem mem_matching {m : Manager} {r : Http.Request} {t : Nat} :
    t ∈ (m.routed r.target.path).filter (fun t => (m.hook? t).any (·.method == r.method)) ↔
      m.OnRoute r t := by
  rw [List.mem_filter, OnRoute]
  cases m.hook? t <;> simp

theorem handled_notFound {m : Manager} {now : Nat} {r : Http.Request}
    (hp : m.routed r.target.path = []) : Handled m now r m .notFound [] := by
  have hoff : ∀ t, ¬ m.OnRoute r t := by
    rintro t ⟨ht, -⟩
    simp [hp] at ht
  constructor <;> simp [WebhookAnswer.status, WebhookAnswer.fired, hp, hoff]

theorem handled_methodNotAllowed {m : Manager} {now : Nat} {r : Http.Request}
    (hp : m.routed r.target.path ≠ []) (hoff : ∀ t, ¬ m.OnRoute r t) :
    Handled m now r m .methodNotAllowed [] := by
  constructor <;> simp [WebhookAnswer.status, WebhookAnswer.fired, hp, hoff]

/-- If no trigger has fired, then nothing has changed. -/
theorem Asking.unchanged {m : Manager} {now : Nat} {r : Http.Request} {asked : List Nat}
    {a : Asked} (h : Asking m now r asked a) (hn : a.firings = []) : a.manager = m := by
  have htriggers : a.manager.triggers = m.triggers := by
    apply List.ext_getElem?
    intro t
    exact h.kept t (by simp [hn])
  rw [h.frame, htriggers]

/-- The answer when some triggers were asked. -/
theorem handled_asked {m : Manager} {now : Nat} {r : Http.Request} {matching : List Nat}
    {a : Asked} (hsub : matching.Sublist (m.routed r.target.path))
    (hmem : ∀ t, t ∈ matching ↔ m.OnRoute r t) (hne : matching ≠ [])
    (h : Asking m now r matching a) :
    Handled m now r a.manager (.ofCounts a.firings.length a.cooling) a.firings := by
  obtain ⟨t₀, ht₀⟩ := List.exists_mem_of_ne_nil matching hne
  have hroute : m.routed r.target.path ≠ [] := List.ne_nil_of_mem (hsub.subset ht₀)
  have hon : ∃ t, m.OnRoute r t := ⟨t₀, (hmem t₀).mp ht₀⟩
  have hfires : ∀ t, t ∈ a.firings.map (·.trigger) ↔
      m.OnRoute r t ∧ m.Authorises r t ∧ m.Cooled now t := by
    intro t
    rw [h.mem_iff, hmem]
  have hcooling : a.firings = [] → (a.cooling = true ↔
      ∃ t, m.OnRoute r t ∧ m.Authorises r t ∧ ¬ m.Cooled now t) := by
    intro hn
    rw [h.cooling hn]
    simp only [hmem]
  have hcases := WebhookAnswer.status_ofCounts_cases a.firings.length a.cooling
  have hstatus := WebhookAnswer.status_ofCounts a.firings.length a.cooling
  simp only [List.length_eq_zero_iff] at hstatus
  constructor
  case not_found =>
    refine ⟨fun h404 => ?_, fun hnone => absurd hnone hroute⟩
    omega
  case not_allowed =>
    refine ⟨fun h405 => ?_, fun hoff => absurd hon (by simpa using hoff.2)⟩
    omega
  case order => exact h.order.trans hsub
  case once => exact fun hnodup => (h.order.trans hsub).nodup hnodup
  case fires_iff => exact hfires
  case firing => exact h.firings
  case fired => exact WebhookAnswer.fired_ofCounts ..
  case accepted =>
    rw [hstatus]
    by_cases hn : a.firings = []
    · rw [if_pos hn]
      cases a.cooling <;> simp [hn]
    · rw [if_neg hn]
      simp [hn]
  case cooling =>
    rw [hstatus]
    by_cases hn : a.firings = []
    · rw [if_pos hn, ← hcooling hn]
      cases a.cooling <;> simp [hn]
    · rw [if_neg hn]
      simp [hn]
  case unauthorized =>
    rw [hstatus]
    by_cases hn : a.firings = []
    · -- whoever lets the request in has not fired, so is cooling down
      have hcooled : (∀ t, m.OnRoute r t → ¬ m.Authorises r t) ↔ ¬ a.cooling = true := by
        rw [hcooling hn]
        constructor
        · rintro hall ⟨t, ht, hauth, -⟩
          exact hall t ht hauth
        · intro hnone t ht hauth
          refine hnone ⟨t, ht, hauth, fun hc => ?_⟩
          have hmem := (hfires t).mpr ⟨ht, hauth, hc⟩
          simp [hn] at hmem
      rw [if_pos hn, hcooled]
      cases a.cooling <;> simp [hon]
    · rw [if_neg hn]
      obtain ⟨f, hf⟩ := List.exists_mem_of_ne_nil a.firings hn
      have hfired := (hfires f.trigger).mp (List.mem_map_of_mem hf)
      refine ⟨fun h => absurd h (by decide), fun hall => ?_⟩
      exact absurd hfired.2.1 (hall.2 f.trigger hfired.1)
  case frame => exact h.frame
  case rested => exact h.fired
  case kept => exact h.kept
  case unauthorised_kept =>
    intro t hu
    have hnot : t ∉ a.firings.map (·.trigger) := fun hf => hu ((hfires t).mp hf).2.1
    exact ⟨hnot, h.kept t hnot⟩
  case unchanged =>
    intro hne
    apply h.unchanged
    by_cases hn : a.firings = []
    · exact hn
    · rw [hstatus, if_neg hn] at hne
      contradiction

/-- A request is handled as it should be, whatever triggers stand on its path. -/
theorem handled (m : Manager) (now : Nat) (r : Http.Request) :
    Handled m now r (m.handle now r).1 (m.handle now r).2.1 (m.handle now r).2.2 := by
  have hmatching := fun t => mem_matching (m := m) (r := r) (t := t)
  have hrouted : (Table.get? m.routes r.target.path).getD [] = m.routed r.target.path := rfl
  unfold handle
  rw [hrouted]
  cases hp : m.routed r.target.path with
  | nil => exact handled_notFound hp
  | cons t rest =>
    rw [hp] at hmatching
    dsimp only
    cases hm : (t :: rest).filter (fun t => (m.hook? t).any (·.method == r.method)) with
    | nil =>
      refine handled_methodNotAllowed (by simp [hp]) fun i hi => ?_
      have hi := (hmatching i).mpr hi
      simp [hm] at hi
    | cons first others =>
      have hsub : (first :: others).Sublist (m.routed r.target.path) := by
        rw [hp, ← hm]
        exact List.filter_sublist
      rw [hm] at hmatching
      exact handled_asked hsub hmatching (by simp) ((Asking.start m now r).all _)

end Manager

end Workflow
