import Workflow.Proofs.ComingTurns
import Workflow.Proofs.Spacing

/- The runs that firings make in a rehearsal. Each firing is followed through all that happens:
   which runs were asked for by it, what has come of each of them and how those have ended that are
   over (`Succession`). The chains that wait for a run, or for what a script has to tell, are those
   of the firings under way, each of one firing (`Accounts.pending`), and every request is one of
   one firing (`Accounts.placed`). A step of the rehearsal either leaves this as it is
   (`Booked.carry`), begins a firing (`Booked.begin`) or lets one go on (`Booked.goOn`), and so do
   the calls around it (`Play.Followed.callAll`). `Chain.requests_of_firing` puts this together
   with what a firing asks for (`Chain.OfFiring`) and what a stage does at each of these steps. -/
namespace Workflow.Rehearsal

/-! ## What is under way -/

/-- What a turn tells a chain, if it tells one its outcome. -/
def Turn.told? : Turn Errand → Option (Chain × Reply)
  | .errand (.goOn c success) => some (c, .scripted success)
  | _ => none

/-- The chains that wait for runs, and those that turns are to tell their outcomes. -/
def pendingOf (waiting : Table Chain) (turns : List (Turn Errand)) : List (Chain × Reply) :=
  waiting.map (fun (id, c) => (c, .run id)) ++ turns.filterMap Turn.told?

/-- The chains under way, each with what it waits for. -/
def Play.pending (p : Play Watch Errand) : List (Chain × Reply) :=
  pendingOf p.memory.world.waiting p.coming

/-- The runs that were asked for, in order. -/
def Watch.requested (w : Watch) : List RunRequest := (w.requests.map (·.2)).reverse

/-! ## Firings -/

/-- A run that was asked for by a firing. -/
structure Asking where
  /-- How many runs had been asked for before, by whatever firings. -/
  place : Nat
  chain : Chain
  /-- What has come of it; nothing when no run could begin. -/
  reply : Option Reply

/-- A firing, the runs that were asked for by it, and the ends of those that have ended. -/
structure Succession where
  definition : TriggerDefinition
  event : Json
  askings : List Asking
  endings : List Chain.Ending

namespace Succession

/-- The chain whose last run has not ended, with what it waits for; none when the firing is over. -/
def pending? (f : Succession) : Option (Chain × Reply) :=
  f.askings[f.endings.length]?.bind fun a => a.reply.map (a.chain, ·)

/-- The requests of the firing. -/
def requests (f : Succession) : List RunRequest := f.askings.map (·.chain.request)

end Succession

/-- Whether a run that was asked for has ended so, by what has come of the request. -/
def Reply.Ends (r : Runner) (success : Bool) : Reply → Prop
  | .run id => ∃ result, r.result? id = some result ∧ (success = true ↔ result = .ok .success)
  | .scripted outcome => success = outcome

/-- What can come of a request in a rehearsal whose disk has been so. -/
inductive Asking.Answered (disk : FileTree → Prop) (s : WatchStage) (a : Asking) : Prop where
  /-- The document could not be read or has no such start point. -/
  | refused {dryRun : Bool} {tree : FileTree} {e : PipelineError}
      (runs : s.world.invoker = .runner dryRun) (seen : disk tree)
      (closed : a.chain.request.opens tree = .error e) (reply : a.reply = none)
  /-- The runner has a run of the document. -/
  | begun {dryRun : Bool} {tree : FileTree} {pipeline : Pipeline} {start : Nat} {id : String}
      {run : Run} (runs : s.world.invoker = .runner dryRun) (seen : disk tree)
      (opens : a.chain.request.opens tree = .ok (pipeline, start))
      (there : Table.get? s.runner.runs id = some run) (document : run.pipeline = pipeline)
      (reply : a.reply = some (.run id))
  /-- The script has said how it ends, by how many of this name were asked for before. -/
  | scripted {results : Table (List (Option RunStatus))} {delay : Nat}
      (script : s.world.invoker = .scripted results delay)
      (reply : a.reply = some (.scripted (WatchStage.scripted results a.chain.request.name
        ((s.world.requested.take a.place).countP (·.name == a.chain.request.name)) ==
          some .success)))

/-- Whether a firing has gone so in a rehearsal. -/
structure Succession.Holds (settings : TriggerSettings) (disk : FileTree → Prop) (s : WatchStage)
    (f : Succession) : Prop where
  /-- Its chains are the walk of the firing, as far as the ends of its runs are known. -/
  chains : f.askings.map (·.chain) =
    (Chain.begin f.definition f.event).walk settings (Chain.Ending.known f.endings)
  ordered : f.askings.Pairwise fun a b => a.place < b.place
  asked : ∀ a ∈ f.askings, s.world.requested[a.place]? = some a.chain.request
  answered : ∀ a ∈ f.askings, a.Answered disk s
  /-- A run has ended as the runner or the script has it, and the disk has been as it was found
  then. -/
  ended : ∀ (k : Nat) (e : Chain.Ending), f.endings[k]? = some e → disk e.tree ∧
    ∃ (a : Asking) (reply : Reply), f.askings[k]? = some a ∧ a.reply = some reply ∧
      reply.Ends s.runner e.success

/-- Whether these are the firings of a rehearsal, in which one of them asked for every run. -/
structure Accounts (settings : TriggerSettings) (disk : FileTree → Prop)
    (p : Play Watch Errand) (fs : List Succession) : Prop where
  holds : ∀ f ∈ fs, f.Holds settings disk p.memory
  /-- Each request is one of one firing. -/
  placed : (fs.flatMap fun f => f.askings.map (·.place)).Perm
    (List.range p.memory.world.requests.length)
  /-- The chains under way are those of the firings that are not over, each of one firing. -/
  pending : p.pending.Perm (fs.filterMap Succession.pending?)
  /-- A run that a chain waits for is there, and when it is over its turn is due. -/
  due : ∀ id, (Table.get? p.memory.world.waiting id).isSome = true →
    (Table.get? p.memory.runner.runs id).isSome = true ∧
      ((p.memory.runner.result? id).isSome = true → .advance id ∈ p.due)
  /-- When no turn is due, every run that is over has let its firing go on. -/
  passed : p.due = [] → ∀ f ∈ fs, ∀ (k : Nat) (a : Asking) (id : String),
    f.askings[k]? = some a → a.reply = some (.run id) →
      (p.memory.runner.result? id).isSome = true → k < f.endings.length
  /-- The runs of a firing are those that its trigger and its event call for. -/
  runs : ∀ f ∈ fs,
    Chain.OfFiring settings f.definition f.event (Chain.Ending.known f.endings) f.requests

/-! ## Firings that go on -/

namespace Succession.Holds

variable {settings : TriggerSettings} {disk : FileTree → Prop} {s s' : WatchStage}
  {f : Succession} {moved : String → Prop}

/-- As the requests become more and the runs go on, what a firing has come to stays. -/
theorem carry (h : f.Holds settings disk s) {more : List RunRequest}
    (hrequested : s'.world.requested = s.world.requested ++ more)
    (hinvoker : s'.world.invoker = s.world.invoker)
    (hgone : s.runner.GoneOn s'.runner moved) : f.Holds settings disk s' where
  chains := h.chains
  ordered := h.ordered
  asked a ha := by
    have hplace := h.asked a ha
    rw [hrequested, List.getElem?_append_left (List.getElem?_eq_some_iff.mp hplace).1]
    exact hplace
  answered a ha := by
    cases h.answered a ha with
    | refused runs seen closed reply => exact .refused (hinvoker.trans runs) seen closed reply
    | begun runs seen opens run document reply =>
      obtain ⟨run', hrun', hpipeline⟩ := hgone.pipeline run
      exact .begun (hinvoker.trans runs) seen opens hrun' (hpipeline.trans document) reply
    | scripted script reply =>
      have hlt := (List.getElem?_eq_some_iff.mp (h.asked a ha)).1
      refine .scripted (hinvoker.trans script) ?_
      rw [hrequested, List.take_append_of_le_length (Nat.le_of_lt hlt)]
      exact reply
  ended k e he := by
    obtain ⟨hdisk, a, reply, ha, hreply, hends⟩ := h.ended k e he
    refine ⟨hdisk, a, reply, ha, hreply, ?_⟩
    cases reply with
    | run id =>
      obtain ⟨result, hresult, hsuccess⟩ := hends
      exact ⟨result, hgone.result hresult, hsuccess⟩
    | scripted outcome => exact hends

/-- A firing begins with one request. -/
theorem begin {d : TriggerDefinition} {event : Json} {place : Nat} {reply : Option Reply}
    (hplace : s.world.requested[place]? = some (Chain.begin d event).request)
    (hanswered : Asking.Answered disk s ⟨place, .begin d event, reply⟩) :
    (⟨d, event, [⟨place, .begin d event, reply⟩], []⟩ : Succession).Holds settings disk s where
  chains := by
    rw [Chain.walk_none settings _ (by rfl)]
    rfl
  ordered := List.pairwise_singleton _ _
  asked a ha := by
    rw [List.mem_singleton.mp ha]
    exact hplace
  answered a ha := by
    rw [List.mem_singleton.mp ha]
    exact hanswered
  ended k e he := by simp at he

/-- A firing that is not over waits for the last run that it has asked for. -/
theorem length_askings (h : f.Holds settings disk s) {c : Chain} {reply : Reply}
    (hpending : f.pending? = some (c, reply)) :
    f.askings.length = f.endings.length + 1 ∧
      ∃ a, f.askings[f.endings.length]? = some a ∧ a.chain = c ∧ a.reply = some reply := by
  obtain ⟨a, ha, hreply⟩ := Option.bind_eq_some_iff.mp hpending
  obtain ⟨r, hr, heq⟩ := Option.map_eq_some_iff.mp hreply
  cases heq
  have hlength := congrArg List.length h.chains
  rw [List.length_map] at hlength
  have hle := Chain.length_walk_known settings f.definition f.event f.endings
  have hlt := (List.getElem?_eq_some_iff.mp ha).1
  exact ⟨by omega, a, ha, rfl, hr⟩

/-- When the run that a firing waits for has ended, it asks for the next one of its walk, or for
none. -/
theorem goOn (h : f.Holds settings disk s) {c : Chain} {reply : Reply}
    (hpending : f.pending? = some (c, reply)) {e : Chain.Ending} (hdisk : disk e.tree)
    (hends : reply.Ends s.runner e.success) {next : List Asking}
    (hnext : next.map (·.chain) = (c.after? settings e.tree e.success).toList)
    (hlater : ∀ a ∈ f.askings, ∀ b ∈ next, a.place < b.place)
    (hasked : ∀ b ∈ next, s.world.requested[b.place]? = some b.chain.request ∧
      b.Answered disk s) :
    ({ f with askings := f.askings ++ next, endings := f.endings ++ [e] } : Succession).Holds
      settings disk s := by
  obtain ⟨hlength, a, ha, rfl, hreply⟩ := h.length_askings hpending
  have hlast : ((Chain.begin f.definition f.event).walk settings
      (Chain.Ending.known f.endings))[f.endings.length]? = some a.chain := by
    rw [← h.chains, List.getElem?_map, ha]
    rfl
  have hone : next.length ≤ 1 := by
    have hcount := congrArg List.length hnext
    rw [List.length_map] at hcount
    rw [hcount]
    cases a.chain.after? settings e.tree e.success <;> simp
  constructor
  case chains =>
    dsimp only
    rw [List.map_append, h.chains, hnext,
      Chain.walk_known_concat settings f.definition f.event hlast]
  case ordered =>
    refine List.pairwise_append.mpr ⟨h.ordered, ?_, hlater⟩
    match next, hone with
    | [], _ => exact .nil
    | [b], _ => exact List.pairwise_singleton _ b
  case asked =>
    intro b hb
    rcases List.mem_append.mp hb with hb | hb
    · exact h.asked b hb
    · exact (hasked b hb).1
  case answered =>
    intro b hb
    rcases List.mem_append.mp hb with hb | hb
    · exact h.answered b hb
    · exact (hasked b hb).2
  case ended =>
    intro k e' he
    dsimp only at he ⊢
    rcases Nat.lt_or_ge k f.endings.length with hk | hk
    · rw [List.getElem?_append_left hk] at he
      obtain ⟨hseen, b, r, hb, hr, hend⟩ := h.ended k e' he
      have hkept : (f.askings ++ next)[k]? = f.askings[k]? :=
        List.getElem?_append_left (List.getElem?_eq_some_iff.mp hb).1
      exact ⟨hseen, b, r, hkept.trans hb, hr, hend⟩
    · -- the end that has come to be known
      have hlt := (List.getElem?_eq_some_iff.mp he).1
      rw [List.length_append, List.length_singleton] at hlt
      obtain rfl : k = f.endings.length := by omega
      rw [List.getElem?_concat_length] at he
      cases he
      have hkept : (f.askings ++ next)[f.endings.length]? = f.askings[f.endings.length]? :=
        List.getElem?_append_left (by omega)
      exact ⟨hdisk, a, reply, hkept.trans ha, hreply, hends⟩

/-- The runs of a firing are those that its trigger and its event call for. -/
theorem ofFiring (h : f.Holds settings disk s) :
    Chain.OfFiring settings f.definition f.event (Chain.Ending.known f.endings) f.requests := by
  have hrequests : f.requests = (Chain.begin f.definition f.event).requests settings
      (Chain.Ending.known f.endings) := by
    rw [Chain.requests, ← h.chains, List.map_map]
    rfl
  rw [hrequests]
  exact Chain.ofFiring settings f.definition f.event _

end Succession.Holds

/-- A firing that has gone on waits for the run that it has asked for last. -/
theorem Succession.pending?_goOn {f : Succession}
    (hlength : f.askings.length = f.endings.length + 1) (next : List Asking) (e : Chain.Ending) :
    ({ f with askings := f.askings ++ next, endings := f.endings ++ [e] } : Succession).pending? =
      next.head?.bind fun a => a.reply.map (a.chain, ·) := by
  unfold pending?
  dsimp only
  rw [List.length_append, List.length_singleton, ← hlength,
    List.getElem?_append_right (Nat.le_refl _), Nat.sub_self, List.head?_eq_getElem?]

/-! ## Requests -/

/-- Whether a script has counted the requests of each name. -/
def Watch.Counts (w : Watch) : Prop :=
  ∀ results delay, w.invoker = .scripted results delay → ∀ name,
    (Table.get? w.asked name).getD 0 = w.requested.countP (·.name == name)

/-- Whether a stage has come of another one by asking for runs, or for none. -/
structure WatchStage.Beyond (s s' : WatchStage) : Prop where
  manager : s'.world.manager = s.world.manager
  tree : s'.world.tree = s.world.tree
  invoker : s'.world.invoker = s.world.invoker
  ready : s'.ready = s.ready
  listed : Listed s'.runner
  goneOn : s.runner.GoneOn s'.runner fun _ => False
  ordered : s'.world.waiting.Ordered
  /-- A chain that has not waited before waits for a new run. -/
  waiting : ∀ id, (Table.get? s'.world.waiting id).isSome = true →
    (Table.get? s.world.waiting id).isSome = true ∨
      (Table.get? s.runner.runs id = none ∧ (Table.get? s'.runner.runs id).isSome = true)
  counts : s'.world.Counts

section Asked

variable {s : WatchStage} {c : Chain} {reply : Option Reply}
  {out : WatchStage × List (StageAction Errand)}

namespace WatchStage.Asked

theorem requested (h : s.Asked c reply out) :
    out.1.world.requested = s.world.requested ++ [c.request] := by
  have hrequests : out.1.world.requests = (s.now, c.request) :: s.world.requests := by
    cases h <;> rfl
  rw [Watch.requested, hrequests, List.map_cons, List.reverse_cons]
  rfl

/-- The chain that was asked for is under way, unless no run could begin. -/
theorem pending (h : s.Asked c reply out) (hs : Listed s.runner)
    (hknown : ∀ id, (Table.get? s.world.waiting id).isSome = true →
      (Table.get? s.runner.runs id).isSome = true) (rest : List (Turn Errand)) :
    (pendingOf out.1.world.waiting
        (turnsOf out.2 ++ rest ++ (out.1.ready ++ out.1.sleeping.map (·.2)))).Perm
      (reply.toList.map (c, ·) ++
        pendingOf s.world.waiting (rest ++ (s.ready ++ s.sleeping.map (·.2)))) := by
  cases h with
  | refused => exact .refl _
  | told =>
    refine List.perm_iff_count.mpr fun x => ?_
    simp [pendingOf, turnsOf, turnOf?, Turn.told?, List.count_append, List.count_cons, counted,
      noted]
    omega
  | later =>
    refine List.perm_iff_count.mpr fun x => ?_
    simp [pendingOf, turnsOf, Turn.told?, List.count_append, List.count_cons, counted, noted]
    omega
  | begun runs opens number =>
    subst number
    -- the run is new, so no chain has waited under its id
    have hnew : Table.get? s.world.waiting (runName s.runner.runs.length) = none := by
      refine Option.not_isSome_iff_eq_none.mp fun hwaits => ?_
      have hthere := hknown _ hwaits
      rw [hs.numbered.fresh] at hthere
      cases hthere
    have hwaiting := (Table.insert_perm hnew c).map fun (e : String × Chain) => (e.2, Reply.run e.1)
    exact (hwaiting.append_right _).trans (.refl _)

/-- The script goes on counting. -/
theorem counts (h : s.Asked c reply out) (hs : s.world.Counts) : out.1.world.Counts := by
  intro results delay hscript name
  have hone : s.world.invoker = .scripted results delay →
      (Table.get? (Table.insert c.request.name
        ((Table.get? s.world.asked c.request.name).getD 0 + 1) s.world.asked) name).getD 0 =
          (s.world.requested ++ [c.request]).countP (·.name == name) := by
    intro hbefore
    rw [List.countP_append, ← hs results delay hbefore name, Table.get?_insert]
    by_cases hname : c.request.name = name
    · simp [hname]
    · simp [hname]
  rw [h.requested]
  cases h with
  | refused runs | begun runs => cases runs.symm.trans hscript
  | told script | later script => exact hone hscript

/-- What is left as it was by asking for a run, and what becomes of it. -/
theorem beyond (h : s.Asked c reply out) (hs : Listed s.runner)
    (hordered : s.world.waiting.Ordered) (hcounts : s.world.Counts) : s.Beyond out.1 := by
  have hcounted := h.counts hcounts
  cases h with
  | refused | told | later =>
    exact ⟨rfl, rfl, rfl, rfl, hs, .refl _ _, hordered, fun id hid => .inl hid, hcounted⟩
  | @begun dryRun pipeline start id runs opens number =>
    subst number
    constructor
    case manager | tree | invoker | ready => rfl
    case listed => exact hs.begin (RunRequest.opens_eq_ok opens).2 rfl
    case goneOn => exact Runner.goneOn_insert hs.numbered.fresh rfl _ _
    case ordered => exact Table.ordered_insert hordered _ c
    case waiting =>
      intro id hid
      dsimp only [launched] at hid ⊢
      rw [Table.get?_insert] at hid ⊢
      split at hid
      · rename_i hnew
        rw [if_pos hnew, ← hnew]
        exact .inr ⟨hs.numbered.fresh, rfl⟩
      · exact .inl hid
    case counts => exact hcounted

/-- What has come of the request is what the invoker makes of it. -/
theorem answered (h : s.Asked c reply out) {disk : FileTree → Prop} (hseen : disk s.world.tree)
    (hcounts : s.world.Counts) :
    Asking.Answered disk out.1 ⟨s.world.requested.length, c, reply⟩ := by
  have hbefore : out.1.world.requested.take s.world.requested.length = s.world.requested := by
    rw [h.requested, List.take_left]
  cases h with
  | refused runs closed => exact .refused runs hseen closed rfl
  | begun runs opens number =>
    exact .begun runs hseen opens ((Table.get?_insert ..).trans (if_pos rfl)) rfl rfl
  | told script outcome | later script late outcome =>
    refine .scripted script ?_
    rw [hbefore, ← hcounts _ _ script, outcome]
    rfl

end WatchStage.Asked

end Asked

/-! ## Firings of a stage -/

/-- Whether these are the firings of a stage, with such turns on the agenda and these chains in
hand, and all is there by which they go on. -/
structure Booked (settings : TriggerSettings) (disk : FileTree → Prop) (s : WatchStage)
    (turns : List (Turn Errand)) (hand : List (Chain × Reply)) (fs : List Succession) : Prop where
  holds : ∀ f ∈ fs, f.Holds settings disk s
  placed : (fs.flatMap fun f => f.askings.map (·.place)).Perm
    (List.range s.world.requested.length)
  pending : (hand ++
    pendingOf s.world.waiting (turns ++ (s.ready ++ s.sleeping.map (·.2)))).Perm
      (fs.filterMap Succession.pending?)
  due : ∀ id, (Table.get? s.world.waiting id).isSome = true →
    (Table.get? s.runner.runs id).isSome = true ∧
      ((s.runner.result? id).isSome = true → .advance id ∈ turns ++ s.ready)
  settled : s.world.manager.settings = settings
  seen : disk s.world.tree
  ordered : s.world.waiting.Ordered
  listed : Listed s.runner
  counts : s.world.Counts

/-- Whether nothing that firings go by is different in another world, and the disk is as it may
be. -/
structure Watch.Alike (disk : FileTree → Prop) (u v : Watch) : Prop where
  waiting : v.waiting = u.waiting
  requests : v.requests = u.requests
  asked : v.asked = u.asked
  invoker : v.invoker = u.invoker
  settings : v.manager.settings = u.manager.settings
  seen : disk u.tree → disk v.tree

theorem Watch.Alike.refl (disk : FileTree → Prop) (u : Watch) : u.Alike disk u where
  waiting := rfl
  requests := rfl
  asked := rfl
  invoker := rfl
  settings := rfl
  seen h := h

section Booked

variable {settings : TriggerSettings} {disk : FileTree → Prop} {s s' : WatchStage}
  {turns rest : List (Turn Errand)} {hand : List (Chain × Reply)} {fs : List Succession}

namespace Booked

/-- What happens aside from the firings leaves them as they are. -/
theorem carry (h : Booked settings disk s turns hand fs) {moved : String → Prop}
    {turns' : List (Turn Errand)} (hworld : s.world.Alike disk s'.world)
    (hlisted : Listed s'.runner) (hgone : s.runner.GoneOn s'.runner moved)
    (htold : ((turns' ++ (s'.ready ++ s'.sleeping.map (·.2))).filterMap Turn.told?).Perm
      ((turns ++ (s.ready ++ s.sleeping.map (·.2))).filterMap Turn.told?))
    (hdue : ∀ id, (Table.get? s.world.waiting id).isSome = true →
      (s'.runner.result? id).isSome = true → .advance id ∈ turns' ++ s'.ready) :
    Booked settings disk s' turns' hand fs := by
  have hrequested : s'.world.requested = s.world.requested := by
    unfold Watch.requested
    rw [hworld.requests]
  constructor
  case holds =>
    exact fun f hf => (h.holds f hf).carry (hrequested.trans (List.append_nil _).symm)
      hworld.invoker hgone
  case placed => rw [hrequested]; exact h.placed
  case pending =>
    unfold pendingOf
    rw [hworld.waiting]
    exact ((htold.append_left _).append_left _).trans h.pending
  case due =>
    intro id hid
    rw [hworld.waiting] at hid
    obtain ⟨run, hrun⟩ := Option.isSome_iff_exists.mp (h.due id hid).1
    obtain ⟨run', hrun', -⟩ := hgone.pipeline hrun
    exact ⟨Option.isSome_iff_exists.mpr ⟨run', hrun'⟩, hdue id hid⟩
  case settled => exact hworld.settings.trans h.settled
  case seen => exact hworld.seen h.seen
  case ordered => rw [hworld.waiting]; exact h.ordered
  case listed => exact hlisted
  case counts =>
    unfold Watch.Counts
    rw [hrequested, hworld.asked, hworld.invoker]
    exact h.counts

/-- A turn that tells no chain anything is in hand, and something is done aside. -/
theorem aside (turn : Option (Turn Errand)) {actions : List (StageAction Errand)}
    (h : Booked settings disk s (turn.toList ++ rest) hand fs)
    (hturn : ∀ t ∈ turn, t.told? = none)
    (ha : Stage.Aside (Watch.Alike disk) (·.told? = none) turn s s' actions) :
    Booked settings disk s' (turnsOf actions ++ rest) hand fs := by
  obtain ⟨more, hready, hmore⟩ := ha.adds.ready
  obtain ⟨later, hsleeping, hlater⟩ := ha.adds.sleeping
  refine h.carry ha.world ha.listed ha.goneOn (.of_eq ?_) fun id hid hends => ?_
  · have hsilent : ∀ {ts : List (Turn Errand)}, (∀ t ∈ ts, t.told? = none) →
        ts.filterMap Turn.told? = [] := List.filterMap_eq_nil_iff.mpr
    have hhand := hsilent fun t ht => hturn t (Option.mem_toList.mp ht)
    simp only [hready, hsleeping, List.map_append, List.filterMap_append, hsilent hmore,
      hsilent ha.adds.next, hsilent (List.forall_mem_map.mpr hlater), hhand, List.append_nil,
      List.nil_append]
  · rw [hready]
    rcases ha.goneOn.ends hends with hover | hnext
    · have hdue := (h.due id hid).2 hover
      simp only [List.mem_append, Option.mem_toList] at hdue ⊢
      rcases hdue with (hturn | hrest) | hreadied
      · exact .inl (.inl (ha.passed id hturn hends))
      · exact .inl (.inr hrest)
      · exact .inr (.inl hreadied)
    · simp [hnext]

/-- What the bus, the listeners and the handlers do is aside from the firings. -/
theorem plain (turn : Option (Turn Errand)) {actions : List (StageAction Errand)}
    (h : Booked settings disk s (turn.toList ++ rest) hand fs) (hturn : ∀ t ∈ turn, t.Plain)
    (ha : Stage.Aside (fun u v => v = u) Turn.Plain turn s s' actions) :
    Booked settings disk s' (turnsOf actions ++ rest) hand fs := by
  have htold : ∀ t : Turn Errand, t.Plain → t.told? = none := by
    intro t ht
    cases t with
    | errand task => exact absurd ht not_false
    | advance | answer => rfl
  refine aside turn h (fun t ht => htold t (hturn t ht)) (ha.mono ?_ htold)
  intro u v hsame
  rw [hsame]
  exact .refl disk u

/-- The turn of a firing, or of a chain that is told its outcome, is taken into hand. -/
theorem take {t : Turn Errand} (h : Booked settings disk s (t :: rest) [] fs)
    (hturn : ∀ id, t ≠ .advance id) : Booked settings disk s rest t.told?.toList fs where
  holds := h.holds
  placed := h.placed
  pending := by
    refine .trans ?_ h.pending
    refine List.perm_iff_count.mpr fun x => ?_
    cases ht : t.told? <;> simp [pendingOf, ht, List.count_append, List.count_cons]
    omega
  due id hid := by
    refine ⟨(h.due id hid).1, fun hover => ?_⟩
    have hdue := (h.due id hid).2 hover
    simpa [Ne.symm (hturn id)] using hdue
  settled := h.settled
  seen := h.seen
  ordered := h.ordered
  listed := h.listed
  counts := h.counts

/-- The chain that waits for a run is taken into hand in the turn of the run. -/
theorem relieve {id : String} {c : Chain} (h : Booked settings disk s (.advance id :: rest) [] fs)
    (hwaiting : Table.get? s.world.waiting id = some c) :
    Booked settings disk (s.relieved id) rest [(c, .run id)] fs where
  holds f hf := (h.holds f hf).carry (List.append_nil _).symm rfl (.refl _ fun _ => False)
  placed := h.placed
  pending := by
    have hperm := (Table.erase_perm h.ordered hwaiting).map
      fun (e : String × Chain) => (e.2, Reply.run e.1)
    exact (hperm.symm.append_right _).trans h.pending
  due i hi := by
    have hne : i ≠ id := by
      rintro rfl
      rw [WatchStage.relieved, Table.get?_erase_self] at hi
      cases hi
    rw [WatchStage.relieved, Table.get?_erase_of_ne hne] at hi
    refine ⟨(h.due i hi).1, fun hover => ?_⟩
    have hdue := (h.due i hi).2 hover
    simpa [hne, WatchStage.relieved] using hdue
  settled := h.settled
  seen := h.seen
  ordered := Table.ordered_erase h.ordered id
  listed := h.listed
  counts := h.counts

/-- What firings need to go on is there when runs were asked for. -/
theorem beyond (h : Booked settings disk s rest hand fs) (hb : s.Beyond s')
    {turns' : List (Turn Errand)} (hrest : ∀ t ∈ rest, t ∈ turns') {hand' : List (Chain × Reply)}
    {fs' : List Succession} (hholds : ∀ f ∈ fs', f.Holds settings disk s')
    (hplaced : (fs'.flatMap fun f => f.askings.map (·.place)).Perm
      (List.range s'.world.requested.length))
    (hpending : (hand' ++
      pendingOf s'.world.waiting (turns' ++ (s'.ready ++ s'.sleeping.map (·.2)))).Perm
        (fs'.filterMap Succession.pending?)) :
    Booked settings disk s' turns' hand' fs' where
  holds := hholds
  placed := hplaced
  pending := hpending
  due id hid := by
    rcases hb.waiting id hid with hbefore | ⟨hnew, hthere⟩
    · obtain ⟨hknown, hdue⟩ := h.due id hbefore
      obtain ⟨run, hrun⟩ := Option.isSome_iff_exists.mp hknown
      obtain ⟨run', hrun', -⟩ := hb.goneOn.pipeline hrun
      refine ⟨Option.isSome_iff_exists.mpr ⟨run', hrun'⟩, fun hends => ?_⟩
      have hover := (hb.goneOn.ends hends).resolve_right not_false
      rw [hb.ready]
      rcases List.mem_append.mp (hdue hover) with hturn | hready
      · exact List.mem_append_left _ (hrest _ hturn)
      · exact List.mem_append_right _ hready
    · refine ⟨hthere, fun hends => ?_⟩
      have hover := (hb.goneOn.ends hends).resolve_right not_false
      simp [Runner.result?, hnew] at hover
  settled := (congrArg Manager.settings hb.manager).trans h.settled
  seen := hb.tree.symm ▸ h.seen
  ordered := hb.ordered
  listed := hb.listed
  counts := hb.counts

/-- A firing begins. -/
theorem begin (h : Booked settings disk s rest [] fs) {d : TriggerDefinition} {event : Json}
    {reply : Option Reply} {out : WatchStage × List (StageAction Errand)}
    (ha : s.Asked (.begin d event) reply out) :
    Booked settings disk out.1 (turnsOf out.2 ++ rest) []
      (fs ++ [⟨d, event, [⟨s.world.requested.length, .begin d event, reply⟩], []⟩]) := by
  have hbeyond := ha.beyond h.listed h.ordered h.counts
  have hlast : out.1.world.requested[s.world.requested.length]? =
      some (Chain.begin d event).request := by
    rw [ha.requested, List.getElem?_concat_length]
  refine h.beyond hbeyond (fun t ht => List.mem_append_right _ ht) ?_ ?_ ?_
  · intro f hf
    rcases List.mem_append.mp hf with hf | hf
    · exact (h.holds f hf).carry ha.requested hbeyond.invoker hbeyond.goneOn
    · rw [List.mem_singleton.mp hf]
      exact .begin hlast (ha.answered h.seen h.counts)
  · rw [ha.requested, List.length_append, List.length_singleton, List.range_succ,
      List.flatMap_append]
    exact h.placed.append_right _
  · have hunder := ha.pending h.listed (fun id hid => (h.due id hid).1) rest
    rw [List.filterMap_append]
    refine hunder.trans (List.perm_append_comm.trans ?_)
    refine h.pending.append ?_
    cases reply <;> exact .refl _

/-- A chain in hand whose run has ended lets its firing go on, with the next run of it asked for or
with none. -/
theorem succeed {c : Chain} {reply : Reply} (h : Booked settings disk s rest [(c, reply)] fs)
    (hb : s.Beyond s') {e : Chain.Ending} (hdisk : disk e.tree)
    (hends : reply.Ends s'.runner e.success) (next : Option Asking)
    (hnext : next.map (·.chain) = c.after? settings e.tree e.success)
    (hplace : ∀ b ∈ next, b.place = s.world.requested.length ∧ b.Answered disk s')
    (hrequested : s'.world.requested = s.world.requested ++ next.toList.map (·.chain.request))
    {turns' : List (Turn Errand)} (hrest : ∀ t ∈ rest, t ∈ turns')
    (hpending : (pendingOf s'.world.waiting (turns' ++ (s'.ready ++ s'.sleeping.map (·.2)))).Perm
      ((next.bind fun a => a.reply.map (a.chain, ·)).toList ++
        pendingOf s.world.waiting (rest ++ (s.ready ++ s.sleeping.map (·.2))))) :
    ∃ fs', Booked settings disk s' turns' [] fs' := by
  -- the firing that the chain is of
  obtain ⟨f, hf, hwaits⟩ := List.mem_filterMap.mp (h.pending.subset List.mem_cons_self)
  obtain ⟨first, later, rfl⟩ := List.append_of_mem hf
  have hothers : (pendingOf s.world.waiting (rest ++ (s.ready ++ s.sleeping.map (·.2)))).Perm
      (first.filterMap Succession.pending? ++ later.filterMap Succession.pending?) := by
    have hall := h.pending
    rw [List.filterMap_append, List.filterMap_cons_some hwaits] at hall
    exact (hall.trans List.perm_middle).cons_inv
  have hbefore : ∀ a ∈ f.askings, a.place < s.world.requested.length := fun a ha =>
    (List.getElem?_eq_some_iff.mp ((h.holds f hf).asked a ha)).1
  have hkept : ∀ g ∈ first ++ f :: later, g.Holds settings disk s' := fun g hg =>
    (h.holds g hg).carry hrequested hb.invoker hb.goneOn
  obtain ⟨hlength, -⟩ := (h.holds f hf).length_askings hwaits
  have hmem : ∀ {b}, b ∈ next.toList → b ∈ next := Option.mem_toList.mp
  refine ⟨first ++ { f with askings := f.askings ++ next.toList, endings := f.endings ++ [e] } ::
    later, h.beyond hb hrest ?_ ?_ ?_⟩
  · intro g hg
    rcases List.mem_append.mp hg with hg | hg
    · exact hkept g (List.mem_append_left _ hg)
    · rcases List.mem_cons.mp hg with rfl | hg
      · refine (hkept f hf).goOn hwaits hdisk hends ?_ ?_ ?_
        · rw [← hnext]
          cases next <;> rfl
        · intro a ha b hb
          rw [(hplace b (hmem hb)).1]
          exact hbefore a ha
        · intro b hb
          obtain ⟨hlast, hanswered⟩ := hplace b (hmem hb)
          obtain rfl : next = some b := hmem hb
          refine ⟨?_, hanswered⟩
          rw [hlast, hrequested]
          exact List.getElem?_concat_length
      · exact hkept g (List.mem_append_right _ (List.mem_cons_of_mem _ hg))
  · have hplaced := h.placed
    rw [hrequested]
    cases next with
    | none => simpa using hplaced
    | some b =>
      have hlast := (hplace b rfl).1
      simp only [List.flatMap_append, List.flatMap_cons] at hplaced
      simp only [Option.toList_some, List.map_cons, List.map_nil, List.length_append,
        List.length_singleton, List.range_succ, List.flatMap_append, List.flatMap_cons,
        List.map_append, hlast]
      refine .trans ?_ (hplaced.append_right _)
      refine List.perm_iff_count.mpr fun place => ?_
      simp only [List.count_append]
      omega
  · have hnow := Succession.pending?_goOn hlength next.toList e
    have hhead : next.toList.head? = next := by cases next <;> rfl
    rw [hhead] at hnow
    refine hpending.trans ((hothers.append_left _).trans ?_)
    rw [List.filterMap_append, List.filterMap_cons, hnow]
    refine List.perm_iff_count.mpr fun x => ?_
    cases next.bind fun a => a.reply.map (a.chain, ·) with
    | none => simp
    | some waits =>
      simp only [Option.toList_some, List.count_append, List.count_cons, List.count_nil]
      omega

/-- A chain in hand whose run has ended goes on, or ends its firing. -/
theorem goOn {c : Chain} {reply : Reply} (h : Booked settings disk s rest [(c, reply)] fs)
    {success : Bool} (hends : reply.Ends s.runner success) :
    ∃ fs', Booked settings disk (s.goOn c success).1
      (turnsOf (s.goOn c success).2 ++ rest) [] fs' := by
  have hends' : ∀ {s' : WatchStage}, s.Beyond s' → reply.Ends s'.runner success := by
    intro s' hb
    cases reply with
    | run id => exact hends.imp fun result ⟨hresult, hiff⟩ => ⟨hb.goneOn.result hresult, hiff⟩
    | scripted outcome => exact hends
  unfold WatchStage.goOn
  cases hafter : c.after? s.world.manager.settings s.world.tree success with
  | none =>
    have hbeyond : s.Beyond s :=
      ⟨rfl, rfl, rfl, rfl, h.listed, .refl _ _, h.ordered, fun _ hid => .inl hid, h.counts⟩
    exact h.succeed hbeyond (e := ⟨success, s.world.tree⟩) h.seen (hends' hbeyond) none
      (by rw [← h.settled]; exact hafter.symm) (by simp) (List.append_nil _).symm
      (fun t ht => ht) (.refl _)
  | some next =>
    obtain ⟨reply', ha⟩ := s.asked next
    have hbeyond := ha.beyond h.listed h.ordered h.counts
    refine h.succeed hbeyond (e := ⟨success, s.world.tree⟩) h.seen (hends' hbeyond)
      (some ⟨s.world.requested.length, next, reply'⟩)
      (by rw [← h.settled]; exact hafter.symm) ?_ ha.requested
      (fun t ht => List.mem_append_right _ ht) ?_
    · intro b hb
      cases hb
      exact ⟨rfl, ha.answered h.seen h.counts⟩
    · have hunder := ha.pending h.listed (fun id hid => (h.due id hid).1) rest
      cases reply' <;> exact hunder

end Booked

end Booked

/-! ## Turns of a manager -/

section Turns

variable {settings : TriggerSettings} {disk : FileTree → Prop} {s s' : WatchStage}
  {rest : List (Turn Errand)} {fs : List Succession}

/-- Alarms that are waited for tell no chain anything. -/
theorem WatchStage.manage_adds (s : WatchStage) (m : Manager) :
    Stage.Adds (·.told? = none) s (s.manage m) [] := by
  have hawaits : ∀ (alarms : List (Alarm AlarmKey AlarmTask)) (s : WatchStage),
      Stage.Adds (·.told? = none) s (alarms.foldl await s) [] := by
    intro alarms
    induction alarms with
    | nil => exact fun s => .same rfl rfl (List.forall_mem_nil _)
    | cons a later ih =>
      intro s
      refine .trans ?_ (ih _)
      unfold await errands
      split
      · exact .readied rfl rfl (List.forall_mem_singleton.mpr rfl) (List.forall_mem_nil _)
      · exact .slept rfl rfl rfl (List.forall_mem_nil _)
  -- the manager has no part in what is put off
  obtain ⟨hready, hsleeping, hnone⟩ := hawaits
    (m.alarms.live.filter (s.world.manager.alarms.next ≤ ·.number))
    { s with world := { s.world with manager := m } }
  exact ⟨hready, hsleeping, hnone⟩

/-- Whatever the manager does, it does aside from the chains. -/
theorem WatchStage.manage_aside (disk : FileTree → Prop) (hlisted : Listed s.runner) {m : Manager}
    (hsettings : m.settings = s.world.manager.settings) (es : List Errand)
    (hes : ∀ e ∈ es, (Turn.errand e).told? = none) {turn : Option (Turn Errand)}
    (hturn : ∀ id, turn ≠ some (.advance id)) :
    Stage.Aside (Watch.Alike disk) (·.told? = none) turn s ((s.manage m).errands es) [] := by
  have hworld : ((s.manage m).errands es).world = { s.world with manager := m } :=
    s.manage_world m
  refine .still hlisted ?_ ((s.manage_adds m).trans ?_) (s.manage_same m).1 hturn
  · rw [hworld]
    exact ⟨rfl, rfl, rfl, rfl, hsettings, fun h => h⟩
  · exact .readied rfl rfl (List.forall_mem_map.mpr hes) (List.forall_mem_nil _)

/-- So does it refresh. -/
theorem WatchStage.refreshed_aside (disk : FileTree → Prop) (hlisted : Listed s.runner)
    {change : Manager → Manager}
    (hsettings : (change s.world.manager).settings = s.world.manager.settings)
    {turn : Option (Turn Errand)} (hturn : ∀ id, turn ≠ some (.advance id)) :
    Stage.Aside (Watch.Alike disk) (·.told? = none) turn s (s.refreshed change) [] := by
  have hsettled : ((change s.world.manager).settleRefresh s.now s.world.tree
      (Http.isLocalHost s.world.manager.settings.webhookHost)).settings =
        s.world.manager.settings :=
    (Manager.settings_settleWithin _ _ _ _ _).trans hsettings
  have haside := s.manage_aside disk hlisted hsettled [] (by simp) hturn
  rw [errands_nil] at haside
  exact haside

namespace Booked

/-- An errand is run. -/
theorem run {e : Errand} (h : Booked settings disk s (.errand e :: rest) [] fs) :
    ∃ fs', Booked settings disk (s.run e).1 (turnsOf (s.run e).2 ++ rest) [] fs' := by
  have haside : ∀ {s' : WatchStage}, (Turn.errand e).told? = none →
      Stage.Aside (Watch.Alike disk) (·.told? = none) (some (.errand e)) s s' [] →
      ∃ fs', Booked settings disk s' rest [] fs' := by
    intro s' htold ha
    exact ⟨fs, aside (some (.errand e)) h (by simpa using htold) ha⟩
  cases e with
  | ring number =>
    have hsettings : (s.world.manager.ring s.now s.world.timestamp number).1.settings =
        s.world.manager.settings :=
      s.world.manager.settings_perform (.ring s.now s.world.timestamp number)
    have hmanage : ∀ es : List Errand, (∀ e ∈ es, (Turn.errand e).told? = none) →
        Stage.Aside (Watch.Alike disk) (·.told? = none) (some (.errand (.ring number))) s
          ((s.manage (s.world.manager.ring s.now s.world.timestamp number).1).errands es) [] :=
      fun es hes => s.manage_aside disk h.listed hsettings es hes (by simp)
    unfold WatchStage.run
    dsimp only
    cases (s.world.manager.ring s.now s.world.timestamp number).2 with
    | nothing =>
      have hnone := hmanage [] (by simp)
      rw [WatchStage.errands_nil] at hnone
      exact haside rfl hnone
    | firing f => exact haside rfl (hmanage [.begin f] (by simp [Turn.told?]))
    | refresh => exact haside rfl (hmanage [.refresh] (by simp [Turn.told?]))
  | begin f =>
    have hin : Booked settings disk s rest [] fs := h.take (by simp)
    obtain ⟨reply, ha⟩ := s.asked (.begin f.definition f.event)
    exact ⟨_, hin.begin ha⟩
  | goOn c success =>
    have hin : Booked settings disk s rest [(c, .scripted success)] fs := h.take (by simp)
    exact hin.goOn rfl
  | refresh =>
    have hsettings := s.world.manager.settings_perform .refresh
    exact haside rfl (s.refreshed_aside disk h.listed hsettings (by simp))

/-- A run that is over is passed on to the chain that waits for it. -/
theorem ended {id : String} (h : Booked settings disk s (.advance id :: rest) [] fs)
    (hover : (s.runner.result? id).isSome = true) :
    ∃ fs', Booked settings disk (s.ended id).1 (turnsOf (s.ended id).2 ++ rest) [] fs' := by
  cases hwaiting : Table.get? s.world.waiting id with
  | none =>
    have hended : s.ended id = (s, []) := by
      unfold WatchStage.ended
      rw [hwaiting]
    rw [hended]
    refine ⟨fs, h.carry (.refl disk _) h.listed
      (.refl _ fun _ => False) (.refl _) fun i hi hends => ?_⟩
    -- the turn was that of a run that nobody waits for
    have hne : i ≠ id := by
      rintro rfl
      rw [hwaiting] at hi
      cases hi
    have hdue := (h.due i hi).2 hends
    simpa [hne, turnsOf] using hdue
  | some c =>
    obtain ⟨result, hresult⟩ := Option.isSome_iff_exists.mp hover
    obtain ⟨success, hsuccess⟩ : ∃ success : Bool,
        success = true ↔ result = .ok .success := by
      by_cases hgood : result = .ok .success
      · exact ⟨true, by simp [hgood]⟩
      · exact ⟨false, by simp [hgood]⟩
    have hiff : success = true ↔ s.runner.result? id = some (.ok .success) := by
      rw [hsuccess, hresult, Option.some.injEq]
    rw [WatchStage.ended_of_waiting hwaiting hiff]
    exact (h.relieve hwaiting).goOn ⟨result, hresult, hsuccess⟩

/-- Something of the agenda is done. -/
theorem perform {deed : Deed Errand}
    (h : Booked settings disk s ((Stage.turnOfDeed? deed).toList ++ rest) [] fs) :
    ∃ fs', Booked settings disk (s.perform WatchStage.customs deed).1
      (turnsOf (s.perform WatchStage.customs deed).2 ++ rest) [] fs' := by
  rcases Stage.perform_cases WatchStage.customs h.listed deed with
    ⟨hplain, ha⟩ | ⟨task, rfl, hrun⟩ | ⟨id, rfl, hover, hended⟩
  · exact ⟨fs, plain _ h hplain ha⟩
  · rw [hrun]
    exact h.run
  · rw [hended]
    exact h.ended hover

theorem call (h : Booked settings disk s rest [] fs) (c : ManagerCall) :
    Booked settings disk (s.call c).1 rest [] fs := by
  have haside : ∀ {s' : WatchStage},
      Stage.Aside (Watch.Alike disk) (·.told? = none) none s s' [] →
      Booked settings disk s' rest [] fs := fun ha => aside none h (by simp) ha
  have hmanage : ∀ {m : Manager}, m.settings = s.world.manager.settings →
      Booked settings disk (s.manage m) rest [] fs := by
    intro m hm
    have hnone : Stage.Aside (Watch.Alike disk) (·.told? = none) none s
        ((s.manage m).errands []) [] :=
      s.manage_aside disk h.listed hm [] (by simp) (by simp)
    rw [WatchStage.errands_nil] at hnone
    exact haside hnone
  have hrefreshed : ∀ change : Manager → Manager,
      (change s.world.manager).settings = s.world.manager.settings →
      Booked settings disk (s.refreshed change) rest [] fs :=
    fun change hchange => haside (s.refreshed_aside disk h.listed hchange (by simp))
  have hperform := s.world.manager.settings_perform
  have hbegins : ∀ (firings : List Firing), ∀ e ∈ firings.map Errand.begin,
      (Turn.errand e).told? = none := by
    intro firings
    simp [Turn.told?]
  cases c with
  | start => exact hrefreshed .start (hperform .start)
  | refresh times =>
    refine hrefreshed (fun m => (List.range times).foldl (fun m _ => m.requestRefresh) m) ?_
    rw [List.foldl_const]
    exact Manager.settings_requestRefreshes _ _
  | fire id event =>
    exact haside (s.manage_aside disk h.listed (hperform (.fire s.now id event)) _ (hbegins _)
      (by simp))
  | request r =>
    exact haside (s.manage_aside disk h.listed (hperform (.request s.now r)) _ (hbegins _)
      (by simp))
  | change path kind => exact hmanage (hperform (.change s.now path kind))
  | advance ms => exact h
  | setPort port =>
    exact hrefreshed (fun m => (m.setPort port).requestRefresh)
      ((s.world.manager.setPort port).settings_perform .refresh)
  | shutdown => exact hmanage rfl

end Booked

end Turns

/-! ## Whole rehearsals -/

section Plays

variable {settings : TriggerSettings} {disk : FileTree → Prop} {p : Play Watch Errand}

/-- Whether the firings of a rehearsal are booked. -/
def Play.Followed (settings : TriggerSettings) (disk : FileTree → Prop) (p : Play Watch Errand) :
    Prop :=
  ∃ fs, Booked settings disk p.memory (p.agenda.filterMap taskTurn?) [] fs

namespace Play.Followed

theorem step (h : Play.Followed settings disk p) :
    Play.Followed settings disk (Exchange.step (Stage.conduct WatchStage.customs) p) := by
  obtain ⟨fs, h⟩ := h
  -- what comes to the agenda stands in front of the rest
  have hnow : ∀ {s' : WatchStage} {actions : List (StageAction Errand)}
      {rest : List (BusTask Unit Event (Deed Errand))} {fs' : List Succession},
      Booked settings disk s' (turnsOf actions ++ rest.filterMap taskTurn?) [] fs' →
      Play.Followed settings disk
        { p with memory := s', agenda := actions.map .act ++ rest } := by
    intro s' actions rest fs' h'
    refine ⟨fs', ?_⟩
    dsimp only
    rw [List.filterMap_append, turns_acts]
    exact h'
  unfold Exchange.step
  split
  · exact ⟨fs, h⟩
  · rename_i hnext
    rw [hnext] at h
    exact hnow (Booked.plain none h (by simp) (Stage.hear_aside h.listed _ _))
  · rename_i hnext
    rw [hnext] at h
    exact ⟨fs, h⟩
  · rename_i hnext
    rw [hnext] at h
    exact ⟨fs, h⟩
  · rename_i event rest hnext
    rw [hnext] at h
    have hcalls : (p.bus.subscribers.map fun (id, u) => BusTask.call (α := Deed Errand) p.emissions
        id u event).filterMap taskTurn? = [] := by
      rw [List.filterMap_map]
      exact List.filterMap_eq_nil_iff.mpr fun _ _ => rfl
    refine ⟨fs, ?_⟩
    dsimp only
    rw [List.filterMap_append, hcalls]
    exact h
  · rename_i deed rest hnext
    rw [hnext] at h
    have htaken : (BusTask.act (σ := Unit) (ε := Event) (.work deed) :: rest).filterMap taskTurn? =
        (Stage.turnOfDeed? deed).toList ++ rest.filterMap taskTurn? := by
      cases deed <;> rfl
    rw [htaken] at h
    obtain ⟨fs', h'⟩ := h.perform
    exact hnow h'

end Play.Followed

/-- The firings of a rehearsal can be followed through all that happens. -/
theorem Play.kept_followed : Play.Kept WatchStage.customs (Play.Followed settings disk) where
  step := Followed.step
  turn {p t rest} h hready := by
    obtain ⟨fs, h⟩ := h
    have hturns : (({ p with memory := { p.memory with ready := rest } } :
        Play Watch Errand).ahead [.work (.turn t)]).agenda.filterMap taskTurn? =
          t :: p.agenda.filterMap taskTurn? := rfl
    refine ⟨fs, ?_⟩
    rw [hturns]
    refine h.carry (.refl disk _) h.listed
      (.refl _ fun _ => False) ?_ fun id hid hends => ?_
    · rw [hready]
      exact List.Perm.filterMap _ List.perm_middle.symm
    · have hdue := (h.due id hid).2 hends
      rw [hready] at hdue
      exact List.perm_middle.subset hdue
  arrive {p} h time := by
    obtain ⟨fs, h⟩ := h
    refine ⟨fs, h.carry (.refl disk _) h.listed
      (.refl _ fun _ => False) ?_ fun id hid hends => ?_⟩
    · refine List.Perm.filterMap _ (List.Perm.append_left _ ?_)
      have hparts := List.filter_append_perm (fun e => e.1 == time) p.memory.sleeping
      have hturns := (hparts.map (·.2)).append_left p.memory.ready
      rw [List.map_append, ← List.append_assoc] at hturns
      simpa [Play.arrive, List.partition_eq_filter_filter, Function.comp_def] using hturns
    · have hdue := (h.due id hid).2 hends
      unfold Play.arrive
      dsimp only
      rw [← List.append_assoc]
      exact List.mem_append_left _ hdue

namespace Play.Followed

/-- A call, with all that follows from it. -/
theorem callManager (h : Play.Followed settings disk p) (c : ManagerCall) :
    Play.Followed settings disk (callManager p c).1 := by
  have hcall : Play.Followed settings disk { p with memory := (WatchStage.call p.memory c).1 } :=
    h.imp fun fs hfs => hfs.call c
  cases c with
  | advance ms => exact kept_followed.advanceWithin _ _ h
  | start | refresh | fire | request | change | setPort | shutdown =>
    exact kept_followed.settleWithin _ hcall

theorem callAll {calls : List (ManagerCall ⊕ FileTree)} (h : Play.Followed settings disk p)
    (hdisk : ∀ tree, .inr tree ∈ calls → disk tree) :
    Play.Followed settings disk (callAll p calls) := by
  induction calls generalizing p with
  | nil => exact h
  | cons c rest ih =>
    have hrest : ∀ tree, .inr tree ∈ rest → disk tree := fun tree ht =>
      hdisk tree (List.mem_cons_of_mem _ ht)
    cases c with
    | inl c => exact ih (h.callManager c) hrest
    | inr tree =>
      have hedit : Play.Followed settings disk (edit p tree) := by
        obtain ⟨fs, h⟩ := h
        exact ⟨fs, h.carry ⟨rfl, rfl, rfl, rfl, rfl, fun _ => hdisk tree List.mem_cons_self⟩
          h.listed (.refl _ fun _ => False) (.refl _) fun id hid => (h.due id hid).2⟩
      exact ih hedit hrest

theorem accounts (h : Play.Followed settings disk p) : ∃ fs, Accounts settings disk p fs := by
  obtain ⟨fs, h⟩ := h
  have hpending : p.pending.Perm (fs.filterMap Succession.pending?) := by
    rw [Play.pending, Play.coming, Play.due, List.append_assoc]
    exact h.pending
  have hcount : p.memory.world.requested.length = p.memory.world.requests.length := by
    simp [Watch.requested]
  refine ⟨fs, h.holds, hcount ▸ h.placed, hpending, h.due, ?_, fun f hf => (h.holds f hf).ofFiring⟩
  intro hnone f hf k a id ha hreply hover
  refine Nat.lt_of_not_le fun hle => ?_
  -- otherwise the chain would wait for the run, whose turn would be due
  have hlast : k = f.endings.length := by
    have hlength := congrArg List.length (h.holds f hf).chains
    rw [List.length_map] at hlength
    have hbound := Chain.length_walk_known settings f.definition f.event f.endings
    have hlt := (List.getElem?_eq_some_iff.mp ha).1
    omega
  have hwaits : f.pending? = some (a.chain, .run id) := by
    rw [Succession.pending?, ← hlast, ha, Option.bind_some, hreply]
    rfl
  have hthere := hpending.symm.subset (List.mem_filterMap.mpr ⟨f, hf, hwaits⟩)
  rcases List.mem_append.mp hthere with hmem | hmem
  · obtain ⟨⟨i, c⟩, hic, heq⟩ := List.mem_map.mp hmem
    cases heq
    have hget := (Table.mem_iff_get? h.ordered id a.chain).mp hic
    have hdue := (h.due id (by rw [hget]; rfl)).2 hover
    rw [Play.due] at hnone
    rw [hnone] at hdue
    cases hdue
  · obtain ⟨t, -, ht⟩ := List.mem_filterMap.mp hmem
    unfold Turn.told? at ht
    split at ht <;> cases ht

end Play.Followed

/-- Whether a rehearsal has made no run so far, for no firing. -/
structure Play.Unfired (settings : TriggerSettings) (p : Play Watch Errand) : Prop where
  settings : p.memory.world.manager.settings = settings
  runs : p.memory.runner.runs = []
  waiting : p.memory.world.waiting = []
  requests : p.memory.world.requests = []
  asked : p.memory.world.asked = []
  silent : ∀ t ∈ p.coming, t.told? = none

theorem Play.Unfired.followed (h : p.Unfired settings) (hdisk : disk p.memory.world.tree) :
    Play.Followed settings disk p := by
  have hnobody : ∀ id, Table.get? p.memory.world.waiting id = none := by
    intro id
    rw [h.waiting]
    rfl
  have hrequested : p.memory.world.requested = [] := by
    unfold Watch.requested
    rw [h.requests]
    rfl
  refine ⟨[], ?_⟩
  constructor
  case holds => exact List.forall_mem_nil _
  case placed =>
    rw [hrequested]
    exact .nil
  case pending =>
    have hsilent := List.filterMap_eq_nil_iff.mpr h.silent
    rw [Play.coming, Play.due, List.append_assoc] at hsilent
    rw [pendingOf, h.waiting, hsilent]
    exact .nil
  case due =>
    intro id hid
    rw [hnobody] at hid
    cases hid
  case settled => exact h.settings
  case seen => exact hdisk
  case ordered =>
    rw [h.waiting]
    exact List.Pairwise.nil
  case listed =>
    refine ⟨Runner.keyed_of_unbegun h.runs, fun id hknown => ?_⟩
    rw [Runner.unknown_of_unbegun h.runs] at hknown
    cases hknown
  case counts =>
    intro results delay _ name
    rw [hrequested, h.asked]
    rfl

end Plays

/-- Whether a stage makes the runs of a firing one after the other, when they end as given. -/
structure WatchStage.MakesRuns (s : WatchStage) (d : TriggerDefinition) (event : Json)
    (ends : Nat → Chain.Ending) : Prop where
  /-- In the turn of a firing its first run is asked for. -/
  begin : ∀ t, (s.run (.begin ⟨t, d, event⟩)).1.world.requests =
    ((((Chain.begin d event).requests s.world.manager.settings ends)[0]?).map
      fun r => (s.now, r)).toList ++ s.world.requests
  /-- When a chain is told its outcome, the run behind that of the chain is asked for, if there is
  one. -/
  goOn : ∀ k c, ((Chain.begin d event).walk s.world.manager.settings ends)[k]? = some c →
    s.world.tree = (ends k).tree →
    (s.run (.goOn c (ends k).success)).1.world.requests =
      ((((Chain.begin d event).requests s.world.manager.settings ends)[k + 1]?).map
        fun r => (s.now, r)).toList ++ s.world.requests
  /-- So it is when the run that a chain waits for is over, by how that run has ended. -/
  ended : ∀ k c id, ((Chain.begin d event).walk s.world.manager.settings ends)[k]? = some c →
    Table.get? s.world.waiting id = some c → s.world.tree = (ends k).tree →
    ((ends k).success = true ↔ s.runner.result? id = some (.ok .success)) →
    (s.ended id).1.world.requests =
      ((((Chain.begin d event).requests s.world.manager.settings ends)[k + 1]?).map
        fun r => (s.now, r)).toList ++ s.world.requests

theorem WatchStage.makesRuns (s : WatchStage) (d : TriggerDefinition) (event : Json)
    (ends : Nat → Chain.Ending) : s.MakesRuns d event ends where
  begin t := by
    rw [(Chain.ofFiring s.world.manager.settings d event ends).first]
    exact (s.ask_spec (.begin d event)).1
  goOn k c hc htree := goOn_walk hc htree
  ended k c id hc hwaiting htree hsuccess := ended_walk hc hwaiting htree hsuccess

end Workflow.Rehearsal

namespace Workflow

open Rehearsal

/-- **The runs of a firing.** They are no more than the depth allows, each follows a success of the
one before it, and none knows more than the event and where it comes from. A stage takes up every
firing, asks for exactly these, lets the chain wait until the run that it has asked for has ended,
and begins each run with exactly its variables. So whatever is called in a rehearsal and however the
documents are edited meanwhile, each request is one of one firing, and no firing stops before it is
over. -/
theorem Chain.requests_of_firing (settings : TriggerSettings) (d : TriggerDefinition)
    (event : Json) (ends : Nat → Ending) :
    OfFiring settings d event ends ((begin d event).requests settings ends) ∧
      (∀ s : WatchStage, s.Invokes ∧ s.MakesRuns d event ends) ∧
      (∀ (s : WatchStage) (c : Chain), (∃ reply, s.Asked c reply (s.ask c)) ∧
        ∀ id run, Table.get? (s.ask c).1.runner.runs id = some run →
          Table.get? s.runner.runs id = some run ∨ run.scope.vars = c.request.vars) ∧
      ∀ p : Play Watch Errand, p.Unfired settings → ∀ calls : List (ManagerCall ⊕ FileTree),
        ∃ fs, Accounts settings (fun tree => tree = p.memory.world.tree ∨ .inr tree ∈ calls)
          (callAll p calls) fs := by
  refine ⟨ofFiring settings d event ends, fun s => ⟨s.invokes, s.makesRuns d event ends⟩,
    fun s c => ⟨s.asked c, (s.ask_spec c).2⟩, ?_⟩
  intro p hp calls
  have hfollowed : Play.Followed settings
      (fun tree => tree = p.memory.world.tree ∨ .inr tree ∈ calls) p := hp.followed (.inl rfl)
  exact (hfollowed.callAll fun tree htree => .inr htree).accounts

/-- A rehearsal begins so. -/
example (settings : TriggerSettings) (tree : FileTree) (invoker : Invoker) :
    (Play.ofStage {
      runner := { workspaceRoot := settings.workspaceRoot }
      world := { manager := .new settings, tree, invoker, timestamp := "" } }).Unfired
        settings where
  settings := rfl
  runs := rfl
  waiting := rfl
  requests := rfl
  asked := rfl
  silent := List.forall_mem_nil _

end Workflow
