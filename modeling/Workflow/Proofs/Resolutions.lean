import Workflow.Registry

/- What becomes of registrations, and what an intent resolves to after them. A provider
   writes down entries, and the table of a registry is made of those that have a name and
   a command, call by call (`Registry.of_calls`). Each capability that an intent asks for
   is served by one group of resolutions, all of them from one source (`Serving`), and the
   groups one behind the other are what the intent resolves to (`resolve_groups`). Both are
   put together in `resolution_of_history`. -/
namespace Workflow

/-! ## Registrations -/

/-- One entry of a registration, as the provider writes it down. -/
structure Entry where
  capability : String
  /-- The command of its own, or the one that it shares with others, if there is one. -/
  command : Option String
  mapper : Option PayloadMapper

/-- The entries of what a provider offers, complete or not. -/
def Offers.entries : Offers → List Entry
  | .names listed shared mapper => listed.map fun name => ⟨name, shared, mapper⟩
  | .single offers => offers.map fun o => ⟨o.capability, some o.command, o.mapper⟩

/-- The capability that a provider registers with an entry: none without a name and a command, and
none when one of them is blank. -/
def Registration.capability? (r : Registration) (e : Entry) : Option Capability :=
  match e.command with
  | none => none
  | some command =>
    if Text.blank e.capability || Text.blank command then none
    else some (r.capability ⟨e.capability, command, e.mapper⟩)

/-- The capabilities of the entries of a registration, in order. -/
def Registration.complete (r : Registration) : List Capability :=
  r.offers.entries.filterMap r.capability?

/-- The registry after calls, one after the other. -/
def Registry.ofCalls (calls : List Registration) : Registry := calls.foldl Registry.register []

/-- What is usable of offers is what their entries stand for. -/
theorem usable_of_offers (r : Registration) (offers : List Offer) :
    (offers.filter Offer.usable).map r.capability =
      (Offers.single offers).entries.filterMap r.capability? := by
  unfold Offers.entries
  induction offers with
  | nil => rfl
  | cons o rest ih =>
    dsimp only at ih ⊢
    rw [List.map_cons, List.filterMap_cons, List.filter_cons, ← ih]
    cases hname : Text.blank o.capability <;> cases hcommand : Text.blank o.command <;>
      simp [Offer.usable, Registration.capability?, hname, hcommand]

/-- Whichever shape a registration has, what it adds is what its entries stand for. -/
theorem capabilities_eq_complete (r : Registration) : r.capabilities = r.complete := by
  unfold Registration.capabilities Registration.complete
  cases r.offers with
  | single offers => exact usable_of_offers r offers
  | names listed shared mapper =>
    cases shared with
    | none => simp [Offers.list, Offers.entries, Registration.capability?]
    | some command =>
      cases hblank : Text.blank command with
      | true => simp [Offers.list, Offers.entries, Registration.capability?, hblank]
      | false =>
        -- the names are as many offers with the command that they share
        have hoffers := usable_of_offers r (listed.map fun name => ⟨name, command, mapper⟩)
        have hentries : (Offers.single (listed.map fun name => ⟨name, command, mapper⟩)).entries =
            (Offers.names listed (some command) mapper).entries := by
          simp [Offers.entries]
        rw [hentries] at hoffers
        simpa [Offers.list, hblank] using hoffers

namespace Registry

theorem register_eq (registry : Registry) (r : Registration) :
    registry.register r = registry ++ r.complete := by
  rw [register, capabilities_eq_complete]

/-- The table of a registry is made of the complete entries of the calls, in their order. -/
theorem of_calls (calls : List Registration) :
    ofCalls calls = calls.flatMap Registration.complete := by
  have hfold : ∀ registry : Registry, calls.foldl register registry =
      registry ++ calls.flatMap Registration.complete := by
    induction calls with
    | nil => simp
    | cons r rest ih =>
      intro registry
      rw [List.foldl_cons, ih, register_eq, List.flatMap_cons, List.append_assoc]
  exact hfold []

end Registry

/-! ## Groups of resolutions -/

/-- Whether an intent asks for these capabilities, in this order: those that it lists, and its own
name when it lists none. -/
def Intent.Asks (intent : Intent) (names : List String) : Prop :=
  (intent.capabilities = some names ∧ names ≠ []) ∨
    (names = [intent.name] ∧ ∀ listed, intent.capabilities = some listed → listed = [])

theorem Intent.Asks.ne_nil {intent : Intent} {names : List String} (h : intent.Asks names) :
    names ≠ [] := by
  rcases h with ⟨-, hne⟩ | ⟨rfl, -⟩
  · exact hne
  · exact List.cons_ne_nil _ _

theorem Intent.Asks.unique {intent : Intent} {names names' : List String} (h : intent.Asks names)
    (h' : intent.Asks names') : names = names' := by
  rcases h with ⟨hlisted, hne⟩ | ⟨rfl, hnone⟩ <;> rcases h' with ⟨hlisted', hne'⟩ | ⟨rfl, hnone'⟩
  · exact Option.some.inj (hlisted.symm.trans hlisted')
  · exact absurd (hnone' _ hlisted) hne
  · exact absurd (hnone _ hlisted') hne'
  · rfl

/-- Whether a route goes where an intent wants it to go: to the provider and the target that it
states, as far as it states them. -/
def Route.Suits (intent : Intent) (r : Route) : Prop :=
  (∀ provider, intent.provider = some provider → r.provider = some provider) ∧
    ∀ target, intent.target = some target → r.target = some target

theorem honours_iff {intent : Intent} {r : Route} :
    r.honours intent = true ↔ r.Suits intent := by
  unfold Route.honours Route.Suits
  cases intent.provider <;> cases intent.target <;> simp

instance (intent : Intent) : DecidablePred (Route.Suits intent) :=
  fun _ => decidable_of_iff _ honours_iff

/-- What is kept of candidates: those that suit, in their order, if any does, else all. -/
inductive Narrowed (suits : α → Prop) [DecidablePred suits] (all : List α) : List α → Prop where
  | to_suiting (one : ∃ a ∈ all, suits a) : Narrowed suits all (all.filter fun a => suits a)
  | not_at_all (none : ∀ a ∈ all, ¬ suits a) : Narrowed suits all all

/-- A mapping of the user as a resolution. -/
def Resolution.ofMapping (m : Route) : Resolution := { m with source := .user }

/-- A registered capability as a resolution. -/
def Resolution.ofCapability (c : Capability) : Resolution :=
  { c.toRoute with mapper := c.mapper, source := .registry }

/-- What serves a name that an intent asks for: the mappings of the user for it if there are any,
else what is registered for it if there is anything, else the command of that name. -/
inductive Serving (registry : Registry) (mappings : List Route) (intent : Intent)
    (name : String) : List Resolution → Prop where
  | user {kept : List Route} (mapped : ∃ m ∈ mappings, m.capability = name)
      (narrowed : Narrowed (Route.Suits intent) (mappings.filter (·.capability = name)) kept) :
      Serving registry mappings intent name (kept.map .ofMapping)
  | registry {kept : List Capability} (unmapped : ∀ m ∈ mappings, m.capability ≠ name)
      (registered : ∃ c ∈ registry, c.capability = name)
      (narrowed : Narrowed (fun c => c.toRoute.Suits intent)
        (registry.filter (·.capability = name)) kept) :
      Serving registry mappings intent name (kept.map .ofCapability)
  | fallback (unmapped : ∀ m ∈ mappings, m.capability ≠ name)
      (unregistered : ∀ c ∈ registry, c.capability ≠ name) :
      Serving registry mappings intent name
        [{ capability := name, command := name, source := .fallback }]

section Narrowed

variable {suits : α → Prop} [DecidablePred suits] {all kept : List α}

theorem Narrowed.mem {a : α} (h : Narrowed suits all kept) (ha : a ∈ kept) : a ∈ all := by
  cases h with
  | to_suiting => exact (List.mem_filter.mp ha).1
  | not_at_all => exact ha

theorem Narrowed.ne_nil (h : Narrowed suits all kept) (hall : all ≠ []) : kept ≠ [] := by
  cases h with
  | to_suiting one =>
    obtain ⟨a, ha, hsuits⟩ := one
    exact List.ne_nil_of_mem (List.mem_filter.mpr ⟨ha, decide_eq_true hsuits⟩)
  | not_at_all => exact hall

end Narrowed

/-- The candidates for a name are those of that name, narrowed. -/
theorem candidates_narrowed (route : α → Route) (all : List α) (name : String)
    (intent : Intent) :
    Narrowed (fun a => (route a).Suits intent) (all.filter fun a => (route a).capability = name)
      (candidates route all name intent) := by
  have hsuits : ∀ named : List α, (named.filter fun a => (route a).honours intent) =
      named.filter fun a => decide ((route a).Suits intent) := by
    intro named
    apply List.filter_congr
    intro a _
    rw [Bool.eq_iff_iff, honours_iff, decide_eq_true_iff]
  show Narrowed _ (all.filter fun a => (route a).capability == name) _
  unfold candidates
  dsimp only
  rw [hsuits]
  generalize all.filter (fun a => (route a).capability == name) = named
  -- narrowing shows only if something suits the intent
  cases hexact : named.filter fun a => decide ((route a).Suits intent) with
  | nil =>
    apply Narrowed.not_at_all
    intro a ha
    have := List.filter_eq_nil_iff.mp hexact a ha
    simpa using this
  | cons a rest =>
    have ha : a ∈ named.filter fun a => decide ((route a).Suits intent) := by simp [hexact]
    obtain ⟨hmem, hfits⟩ := List.mem_filter.mp ha
    have hone : ∃ a ∈ named, (route a).Suits intent := ⟨a, hmem, of_decide_eq_true hfits⟩
    have hkept := Narrowed.to_suiting hone
    rwa [hexact] at hkept

theorem candidates_eq_nil_iff {route : α → Route} {all : List α} {name : String}
    {intent : Intent} :
    candidates route all name intent = [] ↔ ∀ a ∈ all, (route a).capability ≠ name := by
  have hnarrowed := candidates_narrowed route all name intent
  constructor
  · intro hnil a ha hname
    refine hnarrowed.ne_nil ?_ hnil
    exact List.ne_nil_of_mem (List.mem_filter.mpr ⟨ha, decide_eq_true hname⟩)
  · intro hnone
    apply List.eq_nil_iff_forall_not_mem.mpr
    intro a ha
    have := List.mem_filter.mp (hnarrowed.mem ha)
    exact hnone a this.1 (of_decide_eq_true this.2)

section Serving

variable {registry : Registry} {mappings : List Route} {intent : Intent} {name : String}
  {group : List Resolution}

/-- What serves a name is for that name, and its source says who knows the name. -/
theorem Serving.mem (h : Serving registry mappings intent name group) {r : Resolution}
    (hr : r ∈ group) :
    r.capability = name ∧
      (r.source = .user ↔ ∃ m ∈ mappings, m.capability = name) ∧
      (r.source = .registry ↔
        (∀ m ∈ mappings, m.capability ≠ name) ∧ ∃ c ∈ registry, c.capability = name) := by
  cases h with
  | user mapped narrowed =>
    obtain ⟨m, hm, rfl⟩ := List.mem_map.mp hr
    have hname := (List.mem_filter.mp (narrowed.mem hm)).2
    refine ⟨of_decide_eq_true hname, ⟨fun _ => mapped, fun _ => rfl⟩, ?_⟩
    obtain ⟨known, hknown, heq⟩ := mapped
    exact ⟨nofun, fun hun => absurd heq (hun.1 known hknown)⟩
  | registry unmapped registered narrowed =>
    obtain ⟨c, hc, rfl⟩ := List.mem_map.mp hr
    have hname := (List.mem_filter.mp (narrowed.mem hc)).2
    refine ⟨of_decide_eq_true hname, ⟨nofun, ?_⟩, ⟨fun _ => ⟨unmapped, registered⟩, fun _ => rfl⟩⟩
    intro ⟨m, hm, heq⟩
    exact absurd heq (unmapped m hm)
  | fallback unmapped unregistered =>
    obtain rfl := List.mem_singleton.mp hr
    refine ⟨rfl, ⟨nofun, ?_⟩, ⟨nofun, ?_⟩⟩
    · intro ⟨m, hm, heq⟩
      exact absurd heq (unmapped m hm)
    · intro ⟨_, c, hc, heq⟩
      exact absurd heq (unregistered c hc)

theorem Serving.ne_nil (h : Serving registry mappings intent name group) : group ≠ [] := by
  have hknown : ∀ {α : Type} {named : α → String} {all : List α}, (∃ a ∈ all, named a = name) →
      (all.filter fun a => named a = name) ≠ [] := by
    intro α named all ⟨a, ha, hname⟩
    exact List.ne_nil_of_mem (List.mem_filter.mpr ⟨ha, decide_eq_true hname⟩)
  cases h with
  | user mapped narrowed => simpa using narrowed.ne_nil (hknown mapped)
  | registry _ registered narrowed => simpa using narrowed.ne_nil (hknown registered)
  | fallback => exact List.cons_ne_nil _ _

theorem Serving.source_eq {group' : List Resolution} {a b : Resolution}
    (h : Serving registry mappings intent name group)
    (h' : Serving registry mappings intent name group') (ha : a ∈ group) (hb : b ∈ group') :
    a.source = b.source := by
  obtain ⟨-, hau, har⟩ := h.mem ha
  obtain ⟨-, hbu, hbr⟩ := h'.mem hb
  rw [← hbu] at hau
  rw [← hbr] at har
  cases hs : a.source <;> cases ht : b.source <;> simp [hs, ht] at hau har ⊢

end Serving

namespace Registry

variable (registry : Registry) (mappings : List Route) (intent : Intent)

theorem resolveName_serving (name : String) :
    Serving registry mappings intent name (registry.resolveName mappings intent name) := by
  have hmapped := candidates_narrowed id mappings name intent
  have hregistered := candidates_narrowed Capability.toRoute registry name intent
  unfold resolveName
  cases hm : candidates id mappings name intent with
  | cons m ms =>
    rw [hm] at hmapped
    have hknown := (List.mem_filter.mp (hmapped.mem (List.mem_cons_self ..)))
    exact .user ⟨m, hknown.1, of_decide_eq_true hknown.2⟩ hmapped
  | nil =>
    have hunmapped := candidates_eq_nil_iff.mp hm
    cases hc : candidates Capability.toRoute registry name intent with
    | cons c cs =>
      rw [hc] at hregistered
      have hknown := (List.mem_filter.mp (hregistered.mem (List.mem_cons_self ..)))
      exact .registry hunmapped ⟨c, hknown.1, of_decide_eq_true hknown.2⟩ hregistered
    | nil => exact .fallback hunmapped (candidates_eq_nil_iff.mp hc)

theorem asks_capabilityNames : intent.Asks intent.capabilityNames := by
  unfold Intent.Asks Intent.capabilityNames
  cases intent.capabilities with
  | none => simp
  | some listed => cases listed <;> simp

/-- An intent resolves to one group for each name that it asks for. -/
theorem resolve_groups :
    ∃ (names : List String) (group : String → List Resolution), intent.Asks names ∧
      (∀ name, Serving registry mappings intent name (group name)) ∧
      registry.resolve mappings intent = names.flatMap group :=
  ⟨intent.capabilityNames, registry.resolveName mappings intent, asks_capabilityNames intent,
    resolveName_serving registry mappings intent, rfl⟩

theorem resolve_ne_nil : registry.resolve mappings intent ≠ [] := by
  obtain ⟨names, group, hasks, hserving, hresolve⟩ := resolve_groups registry mappings intent
  obtain ⟨name, rest, rfl⟩ := List.exists_cons_of_ne_nil hasks.ne_nil
  rw [hresolve, List.flatMap_cons]
  exact List.append_ne_nil_of_left_ne_nil (hserving name).ne_nil _

theorem serves_iff {registry : Registry} {name : String} :
    registry.serves name = true ↔ ∃ c ∈ registry, c.capability = name := by
  simp [serves]

end Registry

/-! ## Histories -/

namespace Registry

/-- What is known of a registry after calls, and of what an intent resolves to there. -/
structure Resolved (calls : List Registration) (mappings : List Route) (intent : Intent) :
    Prop where
  /-- The table holds the complete entries of the calls, in their order. -/
  table : ofCalls calls = calls.flatMap Registration.complete
  /-- Each call is told how many it added. -/
  told : ∀ r ∈ calls, r.added = r.complete.length ∧
    ∀ earlier : Registry, earlier.register r = earlier ++ r.complete
  /-- What an intent resolves to is put together of groups, one for each name that it asks for. -/
  groups : ∃ (names : List String) (group : String → List Resolution), intent.Asks names ∧
    (∀ name, Serving (ofCalls calls) mappings intent name (group name) ∧ group name ≠ []) ∧
    (ofCalls calls).resolve mappings intent = names.flatMap group
  never_empty : (ofCalls calls).resolve mappings intent ≠ []
  /-- No name mixes sources. -/
  one_source : ∀ a ∈ (ofCalls calls).resolve mappings intent,
    ∀ b ∈ (ofCalls calls).resolve mappings intent, a.capability = b.capability →
      a.source = b.source
  /-- A name that the user has not mapped is served exactly if an intent that asks for it is led to
  the registry. -/
  serves : ∀ name, intent.Asks [name] → (∀ m ∈ mappings, m.capability ≠ name) →
    ((ofCalls calls).serves name = true ↔
      ∀ r ∈ (ofCalls calls).resolve mappings intent, r.source = .registry)

/-- **What an intent resolves to after a history of registrations.** The table is made of the
complete entries of the calls and each call is told how many those are. An intent resolves to one
group for each name it asks for, in order: the mappings of the user for it, else what is registered
for it, narrowed to what suits the intent if anything does, else the command of that name. -/
theorem resolution_of_history (calls : List Registration) (mappings : List Route)
    (intent : Intent) : Resolved calls mappings intent := by
  obtain ⟨names, group, hasks, hserving, hresolve⟩ :=
    resolve_groups (ofCalls calls) mappings intent
  have hgroup : ∀ r ∈ (ofCalls calls).resolve mappings intent,
      ∃ name ∈ names, r ∈ group name := by
    intro r hr
    rw [hresolve] at hr
    exact List.mem_flatMap.mp hr
  have hnonempty := resolve_ne_nil (ofCalls calls) mappings intent
  constructor
  case table => exact of_calls calls
  case told =>
    intro r _
    exact ⟨congrArg List.length (capabilities_eq_complete r), fun earlier => register_eq earlier r⟩
  case groups =>
    refine ⟨names, group, hasks, fun name => ?_, hresolve⟩
    exact ⟨hserving name, (hserving name).ne_nil⟩
  case never_empty => exact hnonempty
  case one_source =>
    intro a ha b hb hname
    obtain ⟨na, -, ha⟩ := hgroup a ha
    obtain ⟨nb, -, hb⟩ := hgroup b hb
    obtain rfl : na = nb := by
      rw [← ((hserving na).mem ha).1, ← ((hserving nb).mem hb).1, hname]
    exact (hserving na).source_eq (hserving na) ha hb
  case serves =>
    intro name hone hunmapped
    obtain rfl := hasks.unique hone
    -- all of them are for this one name, so each tells as much as all
    have hsource : ∀ r ∈ (ofCalls calls).resolve mappings intent,
        (r.source = .registry ↔ (ofCalls calls).serves name = true) := by
      intro r hr
      obtain ⟨n, hn, hr⟩ := hgroup r hr
      obtain rfl := List.mem_singleton.mp hn
      rw [((hserving n).mem hr).2.2, serves_iff]
      exact and_iff_right hunmapped
    constructor
    · intro hserves r hr
      exact (hsource r hr).mpr hserves
    · intro hall
      obtain ⟨r, hr⟩ := List.exists_mem_of_ne_nil _ hnonempty
      exact (hsource r hr).mp (hall r hr)

end Registry

end Workflow
