import Workflow.Toml.Document

/- Every integer of a document that is read fits 64 bits with a sign (`fits_of_parse?`): a number
   is refused when it does not, and building a table from assignments makes no others. -/
namespace Workflow.Toml

variable {es es' : Entries} {key : String}

/-- All integers in a value fit 64 bits with a sign. -/
inductive Value.Fits : Value → Prop where
  | text (s : String) : Fits (.text s)
  | integer {z : Int} (lower : -0x8000000000000000 ≤ z) (upper : z < 0x8000000000000000) :
      Fits (.integer z)
  | real (x : Real) : Fits (.real x)
  | truth (b : Bool) : Fits (.truth b)
  | moment (written : String) : Fits (.moment written)
  | array {items : List Value} (each : ∀ v ∈ items, Fits v) : Fits (.array items)
  | table {fields : List (String × Value)} (each : ∀ p ∈ fields, Fits p.2) : Fits (.table fields)

/-- All integers in an entry fit. -/
inductive Node.Fits : Node → Prop where
  | leaf {v : Value} (value : v.Fits) : Fits (.leaf v)
  | table {implicit dotted : Bool} {es : List (String × Node)} (each : ∀ e ∈ es, Fits e.2) :
      Fits (.table implicit dotted es)
  | tables {items : List (List (String × Node))} (each : ∀ es ∈ items, ∀ e ∈ es, Fits e.2) :
      Fits (.tables items)

/-- All integers in the entries of a table fit. -/
def Entries.Fits (es : Entries) : Prop := ∀ e ∈ es, e.2.Fits

/-! ## Entries -/

namespace Entries

theorem Fits.nil : Entries.Fits [] := fun _ h => nomatch h

theorem Fits.find? {node : Node} (h : es.Fits) (hfind : es.find? key = some node) :
    node.Fits := by
  obtain ⟨front, later, rfl, -⟩ := List.lookup_eq_some_iff.mp hfind
  exact h (key, node) (List.mem_append_right _ List.mem_cons_self)

theorem Fits.set {node : Node} (h : es.Fits) (hnode : node.Fits) : (es.set key node).Fits := by
  induction es with
  | nil =>
    intro e he
    rw [List.mem_singleton.mp he]
    exact hnode
  | cons e es ih =>
    obtain ⟨hfirst, hrest⟩ := List.forall_mem_cons.mp h
    unfold Entries.set
    split
    · exact List.forall_mem_cons.mpr ⟨hnode, hrest⟩
    · exact List.forall_mem_cons.mpr ⟨hfirst, ih hrest⟩

/-- A change that keeps the integers of a table small does so anywhere below. -/
theorem Fits.under {dotted self : Bool} {path : List String}
    {change : Bool → Entries → Option Entries}
    (hchange : ∀ self es es', es.Fits → change self es = some es' → es'.Fits) (h : es.Fits)
    (hunder : Entries.under dotted path change self es = some es') : es'.Fits := by
  induction path generalizing self es es' with
  | nil => exact hchange self es es' h hunder
  | cons key path ih =>
    unfold Entries.under at hunder
    split at hunder
    case h_1 =>
      obtain ⟨sub, hsub, rfl⟩ := Option.map_eq_some_iff.mp hunder
      exact h.set (.table (ih .nil hsub))
    case h_2 => cases hunder
    case h_3 items hfind =>
      cases h.find? hfind with
      | tables each =>
      split at hunder
      · cases hunder
      · rename_i last hlast
        obtain ⟨sub, hsub, rfl⟩ := Option.map_eq_some_iff.mp hunder
        have hfits := ih (each last (List.mem_of_getLast? hlast)) hsub
        refine h.set (.tables fun es hes => ?_)
        rcases List.mem_append.mp hes with hfront | hnew
        · exact each es (List.dropLast_subset items hfront)
        · rw [List.mem_singleton.mp hnew]
          exact hfits
    case h_4 implicit d sub hfind =>
      cases h.find? hfind with
      | table each =>
      split at hunder
      · cases hunder
      · obtain ⟨sub', hsub, rfl⟩ := Option.map_eq_some_iff.mp hunder
        exact h.set (.table (ih each hsub))

theorem Fits.assign {path : List String} {v : Value} (h : es.Fits) (hv : v.Fits)
    (hassign : es.assign path key v = some es') : es'.Fits := by
  refine h.under (fun self es es' hes hset => ?_) hassign
  split at hset
  · cases hset
  · obtain rfl := Option.some.inj hset
    exact hes.set (.leaf hv)

end Entries

theorem mem_fieldsOf {p : String × Value} (h : p ∈ fieldsOf es) :
    ∃ e ∈ es, p = (e.1, e.2.value) := by
  induction es with
  | nil => cases h
  | cons e es ih =>
    rcases List.mem_cons.mp h with rfl | hrest
    · exact ⟨e, List.mem_cons_self, rfl⟩
    · obtain ⟨e', he, hp⟩ := ih hrest
      exact ⟨e', List.mem_cons_of_mem e he, hp⟩

theorem mem_tablesOf {v : Value} {items : List (List (String × Node))} (h : v ∈ tablesOf items) :
    ∃ es ∈ items, v = .table (fieldsOf es) := by
  induction items with
  | nil => cases h
  | cons es items ih =>
    rcases List.mem_cons.mp h with rfl | hrest
    · exact ⟨es, List.mem_cons_self, rfl⟩
    · obtain ⟨es', hes, hv⟩ := ih hrest
      exact ⟨es', List.mem_cons_of_mem es hes, hv⟩

theorem Node.Fits.value {node : Node} (h : node.Fits) : node.value.Fits := by
  induction h with
  | leaf value => exact value
  | table each ih =>
    refine .table fun p hp => ?_
    obtain ⟨e, he, rfl⟩ := mem_fieldsOf hp
    exact ih e he
  | tables each ih =>
    refine .array fun v hv => ?_
    obtain ⟨es, hes, rfl⟩ := mem_tablesOf hv
    refine .table fun p hp => ?_
    obtain ⟨e, he, rfl⟩ := mem_fieldsOf hp
    exact ih es hes e he

theorem Entries.Fits.fieldsOf (h : es.Fits) : ∀ p ∈ fieldsOf es, p.2.Fits := by
  intro p hp
  obtain ⟨e, he, rfl⟩ := mem_fieldsOf hp
  exact (h e he).value

/-! ## Reading -/

variable {v : Value} {cs rest : List Char}

theorem fits_of_fitted {z : Int} (h : fitted z = some v) : v.Fits := by
  unfold fitted at h
  split at h
  case isTrue hrange =>
    obtain rfl := Option.some.inj h
    simp only [Bool.and_eq_true, decide_eq_true_eq] at hrange
    exact .integer hrange.1 hrange.2
  case isFalse => cases h

theorem fits_of_scanBase {base : Nat} {isDigit : Char → Bool}
    (h : scanBase base isDigit cs = some (v, rest)) : v.Fits := by
  obtain ⟨read, -, h⟩ := Option.bind_eq_some_iff.mp h
  obtain ⟨w, hfits, h⟩ := Option.bind_eq_some_iff.mp h
  obtain ⟨rfl, -⟩ := Prod.mk.inj (Option.some.inj h)
  exact fits_of_fitted hfits

theorem fits_of_scanInteger (h : scanInteger cs = some (v, rest)) : v.Fits := by
  unfold scanInteger at h
  split at h
  case h_1 => exact fits_of_scanBase h
  case h_2 => exact fits_of_scanBase h
  case h_3 => exact fits_of_scanBase h
  case h_4 =>
    obtain ⟨read, -, h⟩ := Option.bind_eq_some_iff.mp h
    obtain ⟨w, hfits, h⟩ := Option.bind_eq_some_iff.mp h
    obtain ⟨rfl, -⟩ := Prod.mk.inj (Option.some.inj h)
    exact fits_of_fitted hfits

theorem fits_of_scanMoment (h : scanMoment cs = some (v, rest)) : v.Fits := by
  unfold scanMoment at h
  simp only [Option.bind_eq_bind] at h
  split at h <;>
  · obtain ⟨left, -, h⟩ := Option.bind_eq_some_iff.mp h
    obtain ⟨rfl, -⟩ := Prod.mk.inj (Option.some.inj h)
    exact .moment _

theorem fits_of_scanFloat (h : scanFloat cs = some (v, rest)) : v.Fits := by
  unfold scanFloat at h
  simp only [Option.bind_eq_bind, Option.bind_eq_some_iff] at h
  obtain ⟨whole, -, point, -, h⟩ := h
  split at h
  · obtain ⟨rfl, -⟩ := Prod.mk.inj (Option.some.inj h)
    exact .real _
  · split at h
    · obtain ⟨rfl, -⟩ := Prod.mk.inj (Option.some.inj h)
      exact .real _
    · cases h

theorem fits_of_scanSpecial (h : scanSpecial cs = some (v, rest)) : v.Fits := by
  unfold scanSpecial at h
  dsimp only at h
  split at h
  · obtain ⟨rfl, -⟩ := Prod.mk.inj (Option.some.inj h)
    exact .real _
  · obtain ⟨rfl, -⟩ := Prod.mk.inj (Option.some.inj h)
    exact .real _
  · cases h

theorem fits_of_scanNumber (h : scanNumber cs = some (v, rest)) : v.Fits := by
  simp only [scanNumber, Option.orElse_eq_orElse, Option.orElse_eq_or, Option.or_eq_some_iff] at h
  rcases h with h | ⟨-, h | ⟨-, h | ⟨-, h⟩⟩⟩
  · exact fits_of_scanMoment h
  · exact fits_of_scanFloat h
  · exact fits_of_scanSpecial h
  · exact fits_of_scanInteger h

/-- What the readers of values give with so much fuel. -/
structure ReadsFit (fuel : Nat) : Prop where
  value {depth : Nat} {cs rest : List Char} {v : Value}
    (h : scanValue fuel depth cs = some (v, rest)) : v.Fits
  items {depth : Nat} {cs rest : List Char} {items : List Value}
    (h : scanItems fuel depth cs = some (items, rest)) : ∀ v ∈ items, v.Fits
  pairs {depth : Nat} {cs rest : List Char} {es es' : Entries} (hes : es.Fits)
    (h : scanPairs fuel depth es cs = some (es', rest)) : es'.Fits

theorem readsFit (fuel : Nat) : ReadsFit fuel := by
  induction fuel with
  | zero =>
    constructor
    case value => exact fun h => nomatch h
    case items => exact fun h => nomatch h
    case pairs => exact fun _ h => nomatch h
  | succ fuel ih =>
    constructor
    case value =>
      intro depth cs rest v h
      unfold scanValue at h
      split at h
      case h_1 =>
        obtain ⟨read, -, heq⟩ := Option.map_eq_some_iff.mp h
        obtain ⟨rfl, -⟩ := Prod.mk.inj heq
        exact .text _
      case h_2 =>
        obtain ⟨read, -, heq⟩ := Option.map_eq_some_iff.mp h
        obtain ⟨rfl, -⟩ := Prod.mk.inj heq
        exact .text _
      case h_3 =>
        split at h
        · cases h
        · obtain ⟨read, hread, heq⟩ := Option.map_eq_some_iff.mp h
          obtain ⟨rfl, -⟩ := Prod.mk.inj heq
          exact .array (ih.items hread)
      case h_4 =>
        split at h
        · cases h
        · split at h
          · obtain ⟨rfl, -⟩ := Prod.mk.inj (Option.some.inj h)
            exact .table (fun _ hp => nomatch hp)
          · obtain ⟨read, hread, heq⟩ := Option.map_eq_some_iff.mp h
            obtain ⟨rfl, -⟩ := Prod.mk.inj heq
            exact .table (ih.pairs .nil hread).fieldsOf
      case h_5 =>
        obtain ⟨read, -, heq⟩ := Option.map_eq_some_iff.mp h
        obtain ⟨rfl, -⟩ := Prod.mk.inj heq
        exact .truth _
      case h_6 =>
        obtain ⟨read, -, heq⟩ := Option.map_eq_some_iff.mp h
        obtain ⟨rfl, -⟩ := Prod.mk.inj heq
        exact .truth _
      case h_7 => exact fits_of_scanNumber h
    case items =>
      intro depth cs rest items h
      unfold scanItems at h
      split at h
      · obtain ⟨rfl, -⟩ := Prod.mk.inj (Option.some.inj h)
        exact fun _ hv => nomatch hv
      · split at h
        · cases h
        · rename_i v left hvalue
          have hv := ih.value hvalue
          split at h
          · obtain ⟨read, hread, heq⟩ := Option.map_eq_some_iff.mp h
            obtain ⟨rfl, -⟩ := Prod.mk.inj heq
            exact List.forall_mem_cons.mpr ⟨hv, ih.items hread⟩
          · obtain ⟨rfl, -⟩ := Prod.mk.inj (Option.some.inj h)
            exact List.forall_mem_cons.mpr ⟨hv, fun _ hw => nomatch hw⟩
          · cases h
    case pairs =>
      intro depth cs rest es es' hes h
      unfold scanPairs at h
      split at h
      · split at h
        · cases h
        · rename_i v left hvalue
          have hv := ih.value hvalue
          split at h
          · cases h
          · rename_i assigned hassign
            have hassigned := hes.assign hv hassign
            split at h
            · exact ih.pairs hassigned h
            · obtain ⟨rfl, -⟩ := Prod.mk.inj (Option.some.inj h)
              exact hassigned
            · cases h
      · cases h

/-- All integers in a line of a document fit. -/
def Statement.Fits : Statement → Prop
  | .assign _ _ v => v.Fits
  | .header _ _ => True
  | .arrayHeader _ _ => True

theorem fits_of_scanStatement {s : Statement} (h : scanStatement cs = some (s, rest)) :
    s.Fits := by
  unfold scanStatement at h
  split at h <;> simp only [Option.bind_eq_bind, Option.bind_eq_some_iff, Option.some.injEq] at h
  case h_1 =>
    obtain ⟨path, -, left, -, last, -, heq⟩ := h
    obtain ⟨rfl, -⟩ := Prod.mk.inj heq
    exact trivial
  case h_2 =>
    obtain ⟨path, -, left, -, last, -, heq⟩ := h
    obtain ⟨rfl, -⟩ := Prod.mk.inj heq
    exact trivial
  case h_3 =>
    obtain ⟨path, -, left, -, read, hread, last, -, heq⟩ := h
    obtain ⟨rfl, -⟩ := Prod.mk.inj heq
    exact (readsFit _).value hread

theorem fits_of_scanStatements {fuel : Nat} {ss : List Statement}
    (h : scanStatements fuel cs = some ss) : ∀ s ∈ ss, s.Fits := by
  induction fuel generalizing cs ss with
  | zero => cases h
  | succ fuel ih =>
    unfold scanStatements at h
    split at h
    · obtain rfl := Option.some.inj h
      exact fun _ hs => nomatch hs
    · simp only [Option.bind_eq_bind, Option.bind_eq_some_iff, Option.some.injEq] at h
      obtain ⟨read, hread, later, hlater, rfl⟩ := h
      exact List.forall_mem_cons.mpr ⟨fits_of_scanStatement hread, ih hlater⟩

/-! ## Building -/

namespace Draft

/-- All integers in a document that is being built fit. -/
structure Fits (d : Draft) : Prop where
  root : d.root.Fits
  current : d.current.Fits

variable {d d' : Draft}

theorem Fits.close (h : d.Fits) (hclose : d.close = some es) : es.Fits := by
  unfold Draft.close at hclose
  split at hclose
  · obtain rfl := Option.some.inj hclose
    exact h.current
  · refine h.root.under (fun self es es' hes hput => ?_) hclose
    split at hput
    · obtain rfl := Option.some.inj hput
      refine hes.set ?_
      split
      · exact .tables fun es hes => by
          rw [List.mem_singleton.mp hes]
          exact h.current
      · exact .table h.current
    · rename_i items hfind
      split at hput
      · obtain rfl := Option.some.inj hput
        cases hes.find? hfind with
        | tables each =>
        refine hes.set (.tables fun es hes => ?_)
        rcases List.mem_append.mp hes with hold | hnew
        · exact each es hold
        · rw [List.mem_singleton.mp hnew]
          exact h.current
      · cases hput
    · cases hput

theorem fits_of_opening {sub : Entries} (hes : es.Fits) (h : opening key es = some (sub, es')) :
    sub.Fits ∧ es'.Fits := by
  unfold opening at h
  split at h
  · obtain ⟨rfl, rfl⟩ := Prod.mk.inj (Option.some.inj h)
    exact ⟨.nil, hes⟩
  · rename_i sub' hfind
    obtain ⟨rfl, rfl⟩ := Prod.mk.inj (Option.some.inj h)
    cases hes.find? hfind with
    | table each => exact ⟨each, fun e he => hes e (List.mem_filter.mp he).1⟩
  · cases h

theorem fits_of_openAt {path : List String} (hes : es.Fits)
    (h : openAt key path es = some es') : es'.Fits := by
  induction path generalizing es with
  | nil =>
    obtain ⟨read, hread, rfl⟩ := Option.map_eq_some_iff.mp h
    exact (fits_of_opening hes hread).1
  | cons k path ih =>
    unfold openAt at h
    split at h
    · obtain rfl := Option.some.inj h
      exact .nil
    · rename_i implicit dotted sub hfind
      cases hes.find? hfind with
      | table each => exact ih each h
    · rename_i items hfind
      obtain ⟨last, hlast, h⟩ := Option.bind_eq_some_iff.mp h
      cases hes.find? hfind with
      | tables each => exact ih (each last (List.mem_of_getLast? hlast)) h
    · cases h

theorem Fits.perform {s : Statement} (h : d.Fits) (hs : s.Fits) (hperform : d.perform s = some d') :
    d'.Fits := by
  cases s with
  | assign path key v =>
    obtain ⟨current, hassign, rfl⟩ := Option.map_eq_some_iff.mp hperform
    exact ⟨h.root, h.current.assign hs hassign⟩
  | header path key =>
    simp only [Draft.perform, Option.bind_eq_bind, Option.bind_eq_some_iff, Option.some.injEq]
      at hperform
    obtain ⟨root, hclose, current, hopen, left, hunder, rfl⟩ := hperform
    have hroot := h.close hclose
    refine ⟨hroot.under (fun self es es' hes hput => ?_) hunder, fits_of_openAt hroot hopen⟩
    obtain ⟨taken, htaken, rfl⟩ := Option.map_eq_some_iff.mp hput
    exact (fits_of_opening hes htaken).2
  | arrayHeader path key =>
    simp only [Draft.perform, Option.bind_eq_bind, Option.bind_eq_some_iff, Option.some.injEq]
      at hperform
    obtain ⟨root, hclose, checked, -, rfl⟩ := hperform
    exact ⟨h.close hclose, .nil⟩

theorem Fits.performAll {ss : List Statement} (h : d.Fits) (hss : ∀ s ∈ ss, s.Fits)
    (hperform : d.performAll ss = some d') : d'.Fits := by
  induction ss generalizing d with
  | nil =>
    obtain rfl := Option.some.inj hperform
    exact h
  | cons s ss ih =>
    obtain ⟨hs, hss⟩ := List.forall_mem_cons.mp hss
    obtain ⟨between, hfirst, hlater⟩ := Option.bind_eq_some_iff.mp hperform
    exact ih (h.perform hs hfirst) hss hlater

end Draft

/-- Every integer of a document that is read fits 64 bits with a sign. -/
theorem fits_of_parse? {text : String} {fields : List (String × Value)}
    (h : parse? text = some fields) : ∀ p ∈ fields, p.2.Fits := by
  unfold parse? at h
  simp only [Option.bind_eq_bind, Option.bind_eq_some_iff, Option.some.injEq] at h
  obtain ⟨ss, hscan, d, hperform, es, hclose, rfl⟩ := h
  have hdraft : Draft.Fits {} := ⟨.nil, .nil⟩
  exact ((hdraft.performAll (fits_of_scanStatements hscan) hperform).close hclose).fieldsOf

end Workflow.Toml
