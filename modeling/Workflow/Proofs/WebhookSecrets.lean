import Workflow.Proofs.Octets
import Workflow.Proofs.Spacing

/- Webhooks and their secrets. A request is handled as it should be in every history
   (`handle_request`). The header of the secret is read as text before it is compared,
   and only a value of visible characters is text (`headerText?_iff`). So a webhook lets a
   request in when it has no secret, or when its secret is written in visible characters and
   the header has its octets (`opened_iff`); a secret with any other character is given by no
   request, although its octets may well stand in a header (`accented_secret_is_lost`). -/
namespace Workflow

/-! ## The header of the secret -/

namespace Http

theorem toNat_of_isVisible {b : UInt8} (h : isVisible b = true) : b.toNat < 128 := by
  simp only [isVisible, Bool.or_eq_true, beq_iff_eq, Bool.and_eq_true, decide_eq_true_eq] at h
  rcases h with rfl | ⟨-, hlt⟩
  · decide
  · exact Nat.lt_trans hlt (by decide)

namespace Request

/-- The values of the headers of a name. -/
def valuesOf (r : Request) (name : String) : List Text.Octets :=
  (r.headers.filter (·.1 == name)).map (·.2)

/-- The text of a header is had from the first value, if all of that is visible. -/
theorem headerText?_iff {r : Request} {name s : String} :
    r.headerText? name = some s ↔
      (r.valuesOf name).head? = some (Text.encode s) ∧
        (Text.encode s).all isVisible = true := by
  unfold headerText? valuesOf
  rw [List.head?_map, List.head?_filter]
  cases r.headers.find? (·.1 == name) with
  | none => simp
  | some header =>
    obtain ⟨_, value⟩ := header
    simp only [Option.map_some, Option.some.injEq]
    constructor
    · intro htext
      split at htext
      · rename_i hvisible
        have hascii : ∀ b ∈ value, b.toNat < 128 := fun b hb =>
          toNat_of_isVisible (List.all_eq_true.mp hvisible b hb)
        rw [Text.encode_of_decode? hascii htext]
        exact ⟨rfl, hvisible⟩
      · cases htext
    · rintro ⟨rfl, hvisible⟩
      rw [if_pos hvisible, Text.decode?_encode]

end Request

end Http

/-- Whether the values of the header let a request in to a webhook. -/
def WebhookSpec.OpenedBy (hook : WebhookSpec) (values : List Text.Octets) : Prop :=
  ∀ secret, hook.secret = some secret →
    values = [Text.encode secret] ∧ (Text.encode secret).all Http.isVisible = true

theorem WebhookSpec.opened_iff {hook : WebhookSpec} {r : Http.Request} {name : String}
    (single : (r.valuesOf name).length ≤ 1) :
    hook.OpenedBy (r.valuesOf name) ↔ hook.admits (r.headerText? name) = true := by
  rw [Manager.admits_iff]
  refine forall₂_congr fun secret _ => ?_
  rw [Http.Request.headerText?_iff]
  refine and_congr_left fun _ => ?_
  generalize r.valuesOf name = values at single
  match values, single with
  | [], _ => simp
  | [value], _ => simp

namespace Manager

/-! ## Answers -/

/-- **The answer to a request.** A request is handled as it should be, whatever triggers stand on
its path. In every history a path lists each trigger once, and the firings of a request are those
that a stage asks for runs of. -/
theorem handle_request (m : Manager) (now : Nat) (r : Http.Request) :
    Handled m now r (m.handle now r).1 (m.handle now r).2.1 (m.handle now r).2.2 ∧
      (∀ (settings : TriggerSettings) (os : List Occurrence) (path : String),
        (((new settings).occurAll os).1.routed path).Nodup) ∧
      ∀ s : Rehearsal.WatchStage, s.Invokes :=
  ⟨m.handled now r, fun settings os => ((wired_new settings).occurAll os).routed_nodup,
    Rehearsal.WatchStage.invokes⟩

/-- Whether a request is accepted and makes a trigger fire, once. -/
def FiresFor (m : Manager) (now : Nat) (r : Http.Request) (t : Nat) (d : TriggerDefinition) :
    Prop :=
  (m.handle now r).2.1.status = 202 ∧
    (m.handle now r).2.2.filter (·.trigger == t) = [⟨t, d, requestEvent r⟩]

/-- Whether a request leaves a trigger alone. -/
def IgnoredFor (m : Manager) (now : Nat) (r : Http.Request) (t : Nat) : Prop :=
  (m.handle now r).2.2.filter (·.trigger == t) = [] ∧
    (m.handle now r).1.triggers[t]? = m.triggers[t]?

section Answers

variable {m : Manager} {t now : Nat} {r : Http.Request} {live : LiveTrigger} {hook : WebhookSpec}

/-- A registered webhook stands on its path in the routes. -/
theorem Wired.mem_candidates (h : m.Wired) (registered : t ∈ m.table)
    (webhook : m.hook? t = some hook) (path : r.target.path = hook.path)
    (method : r.method = hook.method) : t ∈ m.candidates r := by
  have hrouted : t ∈ m.routed r.target.path := by
    rw [h.routed, hooksOn, List.mem_filter]
    exact ⟨registered, by simp [webhook, path]⟩
  exact List.mem_filter.mpr ⟨hrouted, by simp [webhook, method]⟩

/-- A webhook that is asked and is not cooling down fires if it lets the request in. -/
theorem answer_of_candidate (h : m.Wired) (candidate : t ∈ m.candidates r)
    (known : m.triggers[t]? = some live) (alive : live.disposed = false)
    (webhook : m.hook? t = some hook) (cooled : live.cooldown.accepts now = true) :
    (hook.admits (r.headerText? m.settings.headerName) = true →
      m.FiresFor now r t live.definition) ∧
    (hook.admits (r.headerText? m.settings.headerName) = false → m.IgnoredFor now r t) := by
  obtain ⟨a, hasking, hmanager, hfirings, hanswer⟩ := m.handle_asking now r
  have hauthorises : m.Authorises r t ↔
      hook.admits (r.headerText? m.settings.headerName) = true := by
    rw [authorises_iff, webhook, known, Option.any_some, Option.map_some, Option.getD_some]
    exact and_iff_left alive
  have hfires := hasking.mem_iff t
  rw [hauthorises, cooled_iff known] at hfires
  constructor
  · intro hadmits
    have hmem := hfires.mpr ⟨candidate, hadmits, cooled⟩
    have hnodup := (h.candidates_nodup r).sublist hasking.order
    obtain ⟨f, hf, rfl, hfilter⟩ := filter_of_mem hnodup hmem
    obtain ⟨hevent, old, hold, hdefinition⟩ := hasking.firings f hf
    obtain rfl := Option.some.inj (hold.symm.trans known)
    constructor
    · rw [hanswer (List.ne_nil_of_mem candidate), WebhookAnswer.status_ofCounts]
      exact if_neg (Nat.ne_of_gt (List.length_pos_of_mem hf))
    · rw [hfirings, hfilter, ← hevent, ← hdefinition]
  · intro hrefused
    have hnot : t ∉ a.firings.map (·.trigger) := fun hmem =>
      Bool.false_ne_true (hrefused.symm.trans (hfires.mp hmem).2.1)
    constructor
    · rw [hfirings]
      exact List.map_eq_nil_iff.mp (fired_of_not_mem hnot)
    · rw [hmanager]
      exact hasking.kept t hnot

end Answers

/-- What a request comes to for a webhook, by its secret and the values of the header. -/
structure Answered (m : Manager) (now : Nat) (r : Http.Request) (t : Nat) (d : TriggerDefinition)
    (hook : WebhookSpec) (values : List Text.Octets) : Prop where
  routed : t ∈ m.routed hook.path
  open_to_all : hook.secret = none → m.FiresFor now r t d
  given : ∀ secret, hook.secret = some secret → (Text.encode secret).all Http.isVisible = true →
    values = [Text.encode secret] → m.FiresFor now r t d
  absent : ∀ secret, hook.secret = some secret → values = [] → m.IgnoredFor now r t
  other : ∀ secret value, hook.secret = some secret → values = [value] →
    value ≠ Text.encode secret → m.IgnoredFor now r t
  /-- Nothing opens a webhook whose secret has a character that is not visible. -/
  unreadable : ∀ secret, hook.secret = some secret →
    (Text.encode secret).all Http.isVisible = false → m.IgnoredFor now r t

/-- **Requests with secrets.** After any history a request on the path of a registered webhook, with
its method and with at most one secret header, is accepted and makes it fire, unless it is cooling
down, when it has no secret or when the header has the octets of its secret and all of these are
visible. It leaves the webhook alone otherwise. -/
theorem answers_to_secrets (settings : TriggerSettings) (os : List Occurrence) {m : Manager}
    (reached : ((new settings).occurAll os).1 = m) (t now : Nat) (r : Http.Request)
    (live : LiveTrigger) (hook : WebhookSpec) (registered : t ∈ m.table)
    (known : m.triggers[t]? = some live) (webhook : live.definition.spec = .webhook hook)
    (path : r.target.path = hook.path) (method : r.method = hook.method)
    (cooled : live.cooldown.accepts now = true)
    (single : (r.valuesOf m.settings.headerName).length ≤ 1) :
    m.Answered now r t live.definition hook (r.valuesOf m.settings.headerName) ∧
      ∀ s : Rehearsal.WatchStage, s.Invokes := by
  have hwired : m.Wired := reached ▸ (wired_new settings).occurAll os
  have hhook : m.hook? t = some hook := by
    unfold hook?
    rw [known]
    dsimp only
    rw [webhook]
  have hcandidate := hwired.mem_candidates registered hhook path method
  obtain ⟨hopen, hshut⟩ := answer_of_candidate hwired hcandidate known
    (hwired.undisposed known registered) hhook cooled
  have hopens : hook.OpenedBy (r.valuesOf m.settings.headerName) ↔
      hook.admits (r.headerText? m.settings.headerName) = true := WebhookSpec.opened_iff single
  have hshuts : ¬ hook.OpenedBy (r.valuesOf m.settings.headerName) → m.IgnoredFor now r t :=
    fun hnot => hshut (Bool.eq_false_iff.mpr fun hadmits => hnot (hopens.mpr hadmits))
  refine ⟨?_, Rehearsal.WatchStage.invokes⟩
  constructor
  case routed => exact path ▸ (List.mem_filter.mp hcandidate).1
  case open_to_all =>
    intro hnone
    refine hopen (hopens.mp fun secret hsecret => ?_)
    exact absurd (hnone.symm.trans hsecret) (by simp)
  case given =>
    intro secret hsecret hvisible hvalues
    refine hopen (hopens.mp fun secret' hsecret' => ?_)
    obtain rfl := Option.some.inj (hsecret.symm.trans hsecret')
    exact ⟨hvalues, hvisible⟩
  case absent =>
    intro secret hsecret hvalues
    refine hshuts fun hopened => ?_
    exact List.cons_ne_nil _ _ ((hopened secret hsecret).1.symm.trans hvalues)
  case other =>
    intro secret value hsecret hvalues hne
    refine hshuts fun hopened => hne ?_
    exact (List.cons.inj (hvalues.symm.trans (hopened secret hsecret).1)).1
  case unreadable =>
    intro secret hsecret hinvisible
    refine hshuts fun hopened => ?_
    exact Bool.false_ne_true (hinvisible.symm.trans (hopened secret hsecret).2)

/-- A tree with a pipeline that a webhook with a secret starts. -/
def deployTree (secret : String) : FileTree :=
  FileTree.empty.plant "/.flowline/deploy.intent.json" (Text.encode
    ("\x7b\"name\":\"deploy\",\"steps\":[\x7b\"intent\":\"system.trigger.webhook\"," ++
      "\"payload\":\x7b\"path\":\"deploy\",\"secret\":\"" ++ secret ++
      "\"\x7d\x7d]\x7d"))

/-- The document is read, and the webhook is registered. -/
def readDeploy (secret : String) : List Occurrence :=
  [.act .start, .act (.proceed 0 (deployTree secret) true 0)]

/-- The trigger of the webhook. -/
def deployHook (secret : String) : LiveTrigger where
  definition :=
    { pipeline := "/.flowline/deploy.intent.json", stepIndex := 0, stepId := none,
      spec := .webhook { path := "/deploy", method := "POST", secret := some secret },
      cooldown := 0, onSuccess := none }
  cooldown := { window := 0 }

/-- A request on its path that has a text in the header. -/
def deployRequest (secret : String) : Http.Request where
  method := "POST"
  target := { path := "/deploy", query := none }
  headers := [("x-flowline-secret", Text.encode secret)]

/-- A secret in plain letters opens its webhook. -/
theorem plain_secret_opens :
    (((new leisurely).occurAll (readDeploy "cle")).1.FiresFor 5 (deployRequest "cle") 0
      (deployHook "cle").definition) := by
  -- one evaluation, so that the document is read once
  obtain ⟨hregistered, hknown, hvalues⟩ :
      0 ∈ ((new leisurely).occurAll (readDeploy "cle")).1.table ∧
        ((new leisurely).occurAll (readDeploy "cle")).1.triggers[0]? = some (deployHook "cle") ∧
        (deployRequest "cle").valuesOf
          ((new leisurely).occurAll (readDeploy "cle")).1.settings.headerName =
            [Text.encode "cle"] := by decide +kernel
  have hanswered := (answers_to_secrets leisurely (readDeploy "cle") rfl 0 5
    (deployRequest "cle") (deployHook "cle") _ hregistered hknown rfl rfl rfl rfl
    (by rw [hvalues]; exact Nat.le_refl 1)).1
  exact hanswered.given "cle" rfl (by decide) hvalues

/-- A secret with an accent is lost: its octets may stand in a header, but when they do, the request
is refused. -/
theorem accented_secret_is_lost :
    0 ∈ ((new leisurely).occurAll (readDeploy "clé")).1.table ∧
      ((new leisurely).occurAll (readDeploy "clé")).1.triggers[0]? = some (deployHook "clé") ∧
      (deployHook "clé").cooldown.accepts 5 = true ∧
      (Text.encode "clé").all Http.isValueOctet = true ∧
      (deployRequest "clé").valuesOf
        ((new leisurely).occurAll (readDeploy "clé")).1.settings.headerName =
          [Text.encode "clé"] ∧
      (((new leisurely).occurAll (readDeploy "clé")).1.handle 5 (deployRequest "clé")).2.1 =
        .unauthorized ∧
      (((new leisurely).occurAll (readDeploy "clé")).1.handle 5 (deployRequest "clé")).2.2 = [] := by
  decide +kernel

end Manager

end Workflow
