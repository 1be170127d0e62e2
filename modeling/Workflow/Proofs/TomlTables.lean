import Workflow.Proofs.TomlLines

/- Documents of tables and one array of tables are read as they were written (`parse?_document`).
   Each header puts the table before it in its place, so what is kept along the statements is what
   the tables come to when the current one is closed (`Builds`). -/
namespace Workflow.Toml

variable {text : List Char}

/-! ## Tables -/

/-- The entries of the fields of a table. -/
def leaves (fields : List (String × Value)) : Entries := fields.map fun p => (p.1, .leaf p.2)

theorem fieldsOf_append (es later : Entries) :
    fieldsOf (es ++ later) = fieldsOf es ++ fieldsOf later := by
  induction es with
  | nil => rfl
  | cons e es ih => exact congrArg _ ih

theorem fieldsOf_leaves (fields : List (String × Value)) : fieldsOf (leaves fields) = fields := by
  induction fields with
  | nil => rfl
  | cons p fields ih => exact congrArg (_ :: ·) ih

theorem tablesOf_leaves (items : List (List (String × Value))) :
    tablesOf (items.map leaves) = items.map .table := by
  induction items with
  | nil => rfl
  | cons fields items ih =>
    rw [List.map_cons, List.map_cons, ← ih, tablesOf, fieldsOf_leaves]

theorem Entries.set_append {es : Entries} {key : String} (h : es.find? key = none)
    (rest : Entries) (node : Node) : Entries.set (es ++ rest) key node = es ++ rest.set key node := by
  induction es with
  | nil => rfl
  | cons e es ih =>
    obtain ⟨k, m⟩ := e
    simp only [Entries.find?, List.lookup_cons] at h ih
    split at h
    case h_1 => cases h
    case h_2 hne =>
      have hk : (k == key) = false := BEq.comm.trans hne
      simp [Entries.set, hk, ih h]

theorem Entries.set_of_absent {es : Entries} {key : String} (h : es.find? key = none)
    (node : Node) : es.set key node = es ++ [(key, node)] := by
  have hset := Entries.set_append h [] node
  rwa [List.append_nil] at hset

theorem Entries.find?_append_other {es : Entries} {key other : String} (h : key ≠ other)
    (node : Node) : Entries.find? (es ++ [(other, node)]) key = es.find? key := by
  have hne : (key == other) = false := beq_eq_false_iff_ne.mpr h
  simp [Entries.find?, List.lookup_append, List.lookup_cons, hne]

namespace Draft

theorem performAll_append (d : Draft) (ss later : List Statement) :
    d.performAll (ss ++ later) = (d.performAll ss).bind (performAll · later) := by
  induction ss generalizing d with
  | nil => rfl
  | cons s ss ih =>
    simp only [List.cons_append, performAll, Option.bind_assoc, ih]

/-- The assignments of fields. -/
def assignments (fields : List (String × Value)) : List Statement :=
  fields.map fun p => .assign [] p.1 p.2

theorem performAll_assignments {fields : List (String × Value)} {d : Draft}
    (hdistinct : fields.Pairwise fun p q => p.1 ≠ q.1)
    (habsent : ∀ p ∈ fields, d.current.find? p.1 = none) :
    d.performAll (assignments fields) = some { d with current := d.current ++ leaves fields } := by
  induction fields generalizing d with
  | nil => simp [assignments, leaves, performAll]
  | cons p fields ih =>
    obtain ⟨hp, hdistinct⟩ := List.pairwise_cons.mp hdistinct
    obtain ⟨hnone, habsent⟩ := List.forall_mem_cons.mp habsent
    have hassign : d.current.assign [] p.1 p.2 = some (d.current ++ [(p.1, .leaf p.2)]) := by
      rw [← Entries.set_of_absent hnone]
      simp [Entries.assign, Entries.under, hnone]
    have hlater := ih (d := { d with current := d.current ++ [(p.1, .leaf p.2)] }) hdistinct
      fun q hq => (Entries.find?_append_other (hp q hq).symm _).trans (habsent q hq)
    simp only [assignments, List.map_cons, performAll, perform, hassign] at hlater ⊢
    simp only [Option.map_some, Option.bind_some, hlater, leaves, List.map_cons, List.append_assoc,
      List.singleton_append]

/-- Statements that turn the tables of a document into others. -/
def Builds (ss : List Statement) (root later : Entries) : Prop :=
  ∀ d : Draft, d.close = some root → ∃ d', d.performAll ss = some d' ∧ d'.close = some later

theorem Builds.nil (root : Entries) : Builds [] root root := fun d hclose => ⟨d, rfl, hclose⟩

theorem Builds.append {ss later : List Statement} {root between last : Entries}
    (h : Builds ss root between) (hlater : Builds later between last) :
    Builds (ss ++ later) root last := by
  intro d hclose
  obtain ⟨d', hperform, hclose⟩ := h d hclose
  obtain ⟨d'', hperform', hclose⟩ := hlater d' hclose
  exact ⟨d'', by rw [performAll_append, hperform, Option.bind_some, hperform'], hclose⟩

/-- Fields of distinct names. -/
abbrev Distinct (fields : List (String × Value)) : Prop :=
  fields.Pairwise fun p q => p.1 ≠ q.1

/-- The statements of a table. -/
def tableStatements (key : String) (fields : List (String × Value)) : List Statement :=
  .header [] key :: assignments fields

/-- The statements of an item of an array of tables. -/
def itemStatements (key : String) (fields : List (String × Value)) : List Statement :=
  .arrayHeader [] key :: assignments fields

theorem builds_table {fields : List (String × Value)} {key : String} {root : Entries}
    (habsent : root.find? key = none) (hdistinct : Distinct fields) :
    Builds (tableStatements key fields) root
      (root ++ [(key, .table false false (leaves fields))]) := by
  intro d hclose
  have hopen : d.perform (.header [] key) =
      some { root, current := [], target := some ([], key, false) } := by
    simp [perform, hclose, openAt, opening, habsent, Entries.under]
  refine ⟨{ root, current := leaves fields, target := some ([], key, false) }, ?_, ?_⟩
  · rw [tableStatements, performAll, hopen, Option.bind_some,
      performAll_assignments hdistinct (by simp [Entries.find?])]
    rfl
  · simp [close, Entries.under, habsent, Entries.set_of_absent habsent]

theorem builds_tables {sections : List (String × List (String × Value))} {root : Entries}
    (hkeys : sections.Pairwise fun s t => s.1 ≠ t.1)
    (habsent : ∀ s ∈ sections, root.find? s.1 = none) (hfields : ∀ s ∈ sections, Distinct s.2) :
    Builds (sections.flatMap fun s => tableStatements s.1 s.2) root
      (root ++ sections.map fun s => (s.1, .table false false (leaves s.2))) := by
  induction sections generalizing root with
  | nil => simpa using Builds.nil root
  | cons s sections ih =>
    obtain ⟨hs, hkeys⟩ := List.pairwise_cons.mp hkeys
    obtain ⟨hnone, habsent⟩ := List.forall_mem_cons.mp habsent
    obtain ⟨hdistinct, hfields⟩ := List.forall_mem_cons.mp hfields
    have hfirst := builds_table hnone hdistinct
    have hothers : ∀ t ∈ sections,
        Entries.find? (root ++ [(s.1, .table false false (leaves s.2))]) t.1 = none := fun t ht =>
      (Entries.find?_append_other (hs t ht).symm _).trans (habsent t ht)
    simpa using hfirst.append (ih hkeys hothers hfields)

/-- The tables of a document with an array of tables behind them, if it has items. -/
def withItems (root : Entries) (key : String) (items : List (List (String × Value))) : Entries :=
  if items.isEmpty then root else root ++ [(key, .tables (items.map leaves))]

theorem builds_item {fields : List (String × Value)} {key : String} {root : Entries}
    (habsent : root.find? key = none) (items : List (List (String × Value)))
    (hdistinct : Distinct fields) :
    Builds (itemStatements key fields) (withItems root key items)
      (withItems root key (items ++ [fields])) := by
  intro d hclose
  have hfind : (withItems root key items).find? key =
      if items.isEmpty then none else some (.tables (items.map leaves)) := by
    unfold withItems
    split
    · exact habsent
    · have hnone : List.lookup key root = none := habsent
      simp [Entries.find?, List.lookup_append, hnone]
  have hopen : d.perform (.arrayHeader [] key) =
      some { root := withItems root key items, current := [], target := some ([], key, true) } := by
    cases hitems : items.isEmpty <;> simp [perform, hclose, Entries.under, hfind, hitems]
  refine ⟨⟨withItems root key items, leaves fields, some ([], key, true)⟩, ?_, ?_⟩
  · rw [itemStatements, performAll, hopen, Option.bind_some,
      performAll_assignments hdistinct (by simp [Entries.find?])]
    rfl
  · cases items with
    | nil =>
      simp [close, Entries.under, hfind]
      simp [withItems, Entries.set_of_absent habsent]
    | cons first items =>
      simp [close, Entries.under, hfind]
      simp [withItems, Entries.set_append habsent, Entries.set]

theorem builds_items {key : String} {root : Entries} (habsent : root.find? key = none)
    (front items : List (List (String × Value))) (hfields : ∀ fields ∈ items, Distinct fields) :
    Builds (items.flatMap (itemStatements key)) (withItems root key front)
      (withItems root key (front ++ items)) := by
  induction items generalizing front with
  | nil => simpa using Builds.nil (withItems root key front)
  | cons fields items ih =>
    obtain ⟨hdistinct, hfields⟩ := List.forall_mem_cons.mp hfields
    have hfirst := builds_item habsent front hdistinct
    have hlater := ih (front ++ [fields]) hfields
    simpa using hfirst.append hlater

end Draft

/-- A document of tables, and of an array of tables behind them, is read as it was written. -/
theorem parse?_document {sections : List (String × List (String × Value))} {key : String}
    {items : List (List (String × Value))}
    (hwritten : Written text ((sections.flatMap fun s => Draft.tableStatements s.1 s.2)
      ++ items.flatMap (Draft.itemStatements key)))
    (hkeys : sections.Pairwise fun s t => s.1 ≠ t.1) (hkey : ∀ s ∈ sections, key ≠ s.1)
    (hsections : ∀ s ∈ sections, Draft.Distinct s.2)
    (hitems : ∀ fields ∈ items, Draft.Distinct fields) :
    parse? (String.ofList text) = some (sections.map (fun s => (s.1, .table s.2))
      ++ if items.isEmpty then [] else [(key, .array (items.map .table))]) := by
  have htables := Draft.builds_tables hkeys (fun s _ => (rfl : Entries.find? [] s.1 = none)) hsections
  generalize hroot : [] ++ sections.map (fun s => (s.1, Node.table false false (leaves s.2))) = root
    at htables
  have hfields : fieldsOf root = sections.map fun s => (s.1, .table s.2) := by
    subst hroot
    clear hwritten hkeys hkey hsections htables
    induction sections with
    | nil => rfl
    | cons s sections ih =>
      simp only [List.nil_append, List.map_cons, fieldsOf, Node.value, fieldsOf_leaves] at ih ⊢
      rw [ih]
  have habsent : Entries.find? root key = none := by
    subst hroot
    rw [Entries.find?, List.lookup_eq_none_iff]
    intro e he
    obtain ⟨s, hs, rfl⟩ := List.mem_map.mp he
    simpa using hkey s hs
  obtain ⟨d, hperform, hclose⟩ :=
    htables.append (Draft.builds_items habsent [] items hitems) {} rfl
  rw [hwritten.parse?, hperform, Option.bind_some, hclose, Option.map_some]
  cases items with
  | nil => simp [Draft.withItems, hfields]
  | cons fields items =>
    simp only [Draft.withItems, List.nil_append, List.isEmpty_cons, Bool.false_eq_true, if_false,
      fieldsOf_append, hfields, fieldsOf, Node.value, tablesOf_leaves]

end Workflow.Toml
