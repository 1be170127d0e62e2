import Workflow.Json.Record

/- Records read from the values that they are written as. A value whose objects are in order is what
   its tree is read as, unless it is nested too deeply (`value?_tree`). Read as a record, an object
   has in each slot what its table has under the name (`record?_tree`); a record that is written
   from its slots is read as these slots (`record?_present`), and what is left of an object without
   the fields that are passed over is written from them as well (`present_eq_tidied`). -/
namespace Workflow

/-! ## Tables -/

namespace Table

variable {α : Type} {table other : Table α} {pairs : List (String × α)} {name : String} {value : α}

theorem ordered_insertAll (h : table.Ordered) (pairs : List (String × α)) :
    (insertAll table pairs).Ordered := by
  unfold insertAll
  induction pairs generalizing table with
  | nil => exact h
  | cons p rest ih => exact ih (ordered_insert h p.1 p.2)

theorem ordered_ofPairs (pairs : List (String × α)) : (ofPairs pairs).Ordered := by
  have hnil : Ordered ([] : Table α) := List.Pairwise.nil
  exact ordered_insertAll hnil pairs

theorem Ordered.nodup (h : table.Ordered) : (table.map (·.1)).Nodup := by
  refine List.Pairwise.imp ?_ h
  rintro first _ hlt rfl
  exact String.lt_irrefl first hlt

theorem Ordered.filter (h : table.Ordered) (kept : String × α → Bool) :
    Ordered (table.filter kept) :=
  h.sublist (List.filter_sublist.map _)

theorem get?_eq_none_iff : get? table name = none ↔ name ∉ table.map (·.1) := by
  rw [get?, Option.map_eq_none_iff, List.find?_eq_none]
  constructor
  · intro h hmem
    obtain ⟨p, hp, hname⟩ := List.mem_map.mp hmem
    exact h p hp (by simpa using hname)
  · intro h p hp hname
    exact h (List.mem_map.mpr ⟨p, hp, by simpa using hname⟩)

theorem get?_of_mem (hnodup : (pairs.map (·.1)).Nodup) (h : (name, value) ∈ pairs) :
    get? pairs name = some value := by
  induction pairs with
  | nil => cases h
  | cons p rest ih =>
    obtain ⟨hp, hrest⟩ := List.nodup_cons.mp hnodup
    rw [get?_cons]
    rcases List.mem_cons.mp h with rfl | hmem
    · exact if_pos rfl
    · rw [if_neg, ih hrest hmem]
      rintro rfl
      exact hp (List.mem_map.mpr ⟨_, hmem, rfl⟩)

theorem get?_insertAll (hnodup : (pairs.map (·.1)).Nodup) (table : Table α) (name : String) :
    get? (insertAll table pairs) name = (get? pairs name).or (get? table name) := by
  induction pairs generalizing table with
  | nil => rfl
  | cons p rest ih =>
    obtain ⟨hp, hrest⟩ := List.nodup_cons.mp hnodup
    show get? (insertAll (insert p.1 p.2 table) rest) name = _
    rw [ih hrest, get?_insert, get?_cons]
    by_cases hname : p.1 = name
    · have hnone : get? rest name = none := get?_eq_none_iff.mpr (hname ▸ hp)
      rw [if_pos hname, if_pos hname, hnone]
      rfl
    · rw [if_neg hname, if_neg hname]

theorem get?_ofPairs (hnodup : (pairs.map (·.1)).Nodup) (name : String) :
    get? (ofPairs pairs) name = get? pairs name :=
  (get?_insertAll hnodup [] name).trans Option.or_none

/-- A table in order has nothing under the names in front of it. -/
theorem get?_of_head (h : Ordered ((name, value) :: table)) : get? table name = none := by
  obtain ⟨hhead, -⟩ := List.pairwise_cons.mp h
  exact get?_eq_none_iff.mpr fun hmem => String.lt_irrefl name (hhead name hmem)

/-- Tables in order are the same if they have the same values. -/
theorem ext_get? (h : table.Ordered) (h' : other.Ordered)
    (hsame : ∀ name, get? table name = get? other name) : table = other := by
  induction table generalizing other with
  | nil =>
    cases other with
    | nil => rfl
    | cons q rest =>
      obtain ⟨m, w⟩ := q
      simpa [get?_nil, get?_cons] using hsame m
  | cons p rest ih =>
    obtain ⟨n, v⟩ := p
    cases other with
    | nil => simpa [get?_nil, get?_cons] using hsame n
    | cons q rest' =>
      obtain ⟨m, w⟩ := q
      have hfirst := hsame n
      have hsecond := hsame m
      rw [get?_cons, get?_cons, if_pos rfl] at hfirst hsecond
      have hname : m = n := by
        by_cases hname : m = n
        · exact hname
        · -- each name would have to stand behind the other one
          rw [if_neg hname] at hfirst
          rw [if_neg (Ne.symm hname)] at hsecond
          obtain ⟨hhead, hrest⟩ := List.pairwise_cons.mp h
          obtain ⟨hhead', hrest'⟩ := List.pairwise_cons.mp h'
          have hn := hhead' n (List.mem_map_of_mem ((mem_iff_get? hrest' n v).mpr hfirst.symm))
          have hm := hhead m (List.mem_map_of_mem ((mem_iff_get? hrest m w).mpr hsecond))
          exact absurd hn (String.lt_asymm hm)
      subst hname
      rw [if_pos rfl, Option.some.injEq] at hfirst
      subst hfirst
      refine congrArg _ (ih (List.pairwise_cons.mp h).2 (List.pairwise_cons.mp h').2 fun name => ?_)
      by_cases hname : m = name
      · subst hname
        rw [get?_of_head h, get?_of_head h']
      · have hrest := hsame name
        rwa [get?_cons, get?_cons, if_neg hname, if_neg hname] at hrest

theorem ofPairs_of_ordered (h : table.Ordered) : ofPairs table = table :=
  ext_get? (ordered_ofPairs table) h (get?_ofPairs h.nodup)

theorem get?_filter_map {β : Type} (h : table.Ordered) (kept : String → α → Bool)
    (f : String → α → β) (name : String) :
    get? ((table.filter fun p => kept p.1 p.2).map fun p => (p.1, f p.1 p.2)) name =
      ((get? table name).filter (kept name)).map (f name) := by
  induction table with
  | nil => rfl
  | cons p rest ih =>
    obtain ⟨n, v⟩ := p
    have ih := ih (List.pairwise_cons.mp h).2
    rw [get?_cons]
    by_cases hname : n = name
    · subst hname
      have hnone : get? ((rest.filter fun p => kept p.1 p.2).map fun p => (p.1, f p.1 p.2)) n =
          none := by
        rw [ih, get?_of_head h]
        rfl
      rw [if_pos rfl, List.filter_cons]
      cases hkept : kept n v with
      | true => simp [get?_cons, Option.filter, hkept]
      | false => simpa [Option.filter, hkept] using hnone
    · rw [if_neg hname, List.filter_cons]
      split
      · rw [List.map_cons, get?_cons, if_neg hname, ih]
      · exact ih

theorem ordered_filter_map {β : Type} (h : table.Ordered) (kept : String × α → Bool)
    (f : String → α → β) :
    Ordered ((table.filter kept).map fun p => (p.1, f p.1 p.2)) := by
  have hnames : names ((table.filter kept).map fun p => (p.1, f p.1 p.2)) =
      names (table.filter kept) := by
    simp [names]
  rw [Ordered, hnames]
  exact h.filter kept

end Table

namespace Json

/-! ## Values and their trees -/

mutual

/-- How many arrays and objects stand one inside the other. -/
def height : Json → Nat
  | .null => 0
  | .bool _ => 0
  | .num _ => 0
  | .str _ => 0
  | .arr items => itemsHeight items + 1
  | .obj fields => fieldsHeight fields + 1

/-- The height of the highest item. -/
def itemsHeight : List Json → Nat
  | [] => 0
  | v :: rest => max (height v) (itemsHeight rest)

/-- The height of the highest field. -/
def fieldsHeight : List (String × Json) → Nat
  | [] => 0
  | (_, v) :: rest => max (height v) (fieldsHeight rest)

end

mutual

/-- Whether the fields of all objects are in order. -/
def Canonical : Json → Prop
  | .null => True
  | .bool _ => True
  | .num _ => True
  | .str _ => True
  | .arr items => CanonicalItems items
  | .obj fields => Table.Ordered fields ∧ CanonicalFields fields

/-- Whether that is so in all items. -/
def CanonicalItems : List Json → Prop
  | [] => True
  | v :: rest => Canonical v ∧ CanonicalItems rest

/-- Whether that is so in all fields. -/
def CanonicalFields : List (String × Json) → Prop
  | [] => True
  | (_, v) :: rest => Canonical v ∧ CanonicalFields rest

end

section Trees

variable {v : Json} {items : List Json} {fields : List (String × Json)} {name : String}

theorem canonicalItems_iff : CanonicalItems items ↔ ∀ v ∈ items, v.Canonical := by
  induction items with
  | nil => simp [CanonicalItems]
  | cons v rest ih => simp [CanonicalItems, ih]

theorem canonicalFields_iff : CanonicalFields fields ↔ ∀ p ∈ fields, p.2.Canonical := by
  induction fields with
  | nil => simp [CanonicalFields]
  | cons p rest ih => simp [CanonicalFields, ih]

theorem height_lt_of_mem (h : v ∈ items) : v.height < (arr items).height := by
  refine Nat.lt_succ_of_le ?_
  induction items with
  | nil => cases h
  | cons w rest ih =>
    rcases List.mem_cons.mp h with rfl | hmem
    · exact Nat.le_max_left _ _
    · exact Nat.le_trans (ih hmem) (Nat.le_max_right _ _)

theorem height_lt_of_get? (h : Table.get? fields name = some v) :
    v.height < (obj fields).height := by
  refine Nat.lt_succ_of_le ?_
  have hmem := Table.mem_of_get? h
  induction fields with
  | nil => cases hmem
  | cons p rest ih =>
    rw [Table.get?_cons] at h
    rcases List.mem_cons.mp hmem with rfl | hrest
    · exact Nat.le_max_left _ _
    · split at h
      · cases h
        exact Nat.le_max_left _ _
      · exact Nat.le_trans (ih h hrest) (Nat.le_max_right _ _)

theorem Canonical.of_get? (h : (obj fields).Canonical) (hv : Table.get? fields name = some v) :
    v.Canonical :=
  canonicalFields_iff.mp h.2 _ (Table.mem_of_get? hv)

theorem fieldTrees_eq_map (fields : List (String × Json)) :
    fieldTrees fields = fields.map fun p => (some p.1, p.2.tree) := by
  induction fields with
  | nil => rfl
  | cons p rest ih => rw [fieldTrees, ih, List.map_cons]

mutual

/-- A value is what its tree is read as, unless it is nested too deeply. -/
theorem value?_tree (v : Json) (h : v.Canonical) (depth : Nat) :
    v.tree.value? depth = if v.height ≤ depth then some v else none := by
  cases v with
  | null | bool | num | str =>
    rw [if_pos (by simp [height])]
    rfl
  | arr items =>
    cases depth with
    | zero => rfl
    | succ depth =>
      rw [tree, Tree.value?, values?_treesOf items h, height]
      by_cases hle : itemsHeight items ≤ depth
      · rw [if_pos hle, if_pos (Nat.succ_le_succ hle)]
        rfl
      · rw [if_neg hle, if_neg (fun hlt => hle (Nat.le_of_succ_le_succ hlt))]
        rfl
  | obj fields =>
    cases depth with
    | zero => rfl
    | succ depth =>
      rw [tree, Tree.value?, pairs?_fieldTrees fields h.2, height]
      by_cases hle : fieldsHeight fields ≤ depth
      · rw [if_pos hle, if_pos (Nat.succ_le_succ hle), Option.map_some, ofPairs,
          Table.ofPairs_of_ordered h.1]
      · rw [if_neg hle, if_neg (fun hlt => hle (Nat.le_of_succ_le_succ hlt))]
        rfl

theorem values?_treesOf (items : List Json) (h : CanonicalItems items) (depth : Nat) :
    Tree.values? depth (treesOf items) =
      if itemsHeight items ≤ depth then some items else none := by
  cases items with
  | nil => exact (if_pos (Nat.zero_le depth)).symm
  | cons v rest =>
    rw [treesOf, Tree.values?, value?_tree v h.1, values?_treesOf rest h.2, itemsHeight]
    simp only [Nat.max_le]
    by_cases hv : v.height ≤ depth <;> by_cases hrest : itemsHeight rest ≤ depth <;>
      simp [hv, hrest]

theorem pairs?_fieldTrees (fields : List (String × Json)) (h : CanonicalFields fields)
    (depth : Nat) :
    Tree.pairs? depth (fieldTrees fields) =
      if fieldsHeight fields ≤ depth then some fields else none := by
  cases fields with
  | nil => exact (if_pos (Nat.zero_le depth)).symm
  | cons p rest =>
    obtain ⟨n, v⟩ := p
    rw [fieldTrees, Tree.pairs?, value?_tree v h.1, pairs?_fieldTrees rest h.2, fieldsHeight]
    simp only [Nat.max_le]
    by_cases hv : v.height ≤ depth <;> by_cases hrest : fieldsHeight rest ≤ depth <;>
      simp [hv, hrest]

end

theorem eq_of_value?_tree (h : v.Canonical) {depth : Nat} {w : Json}
    (hw : v.tree.value? depth = some w) : w = v := by
  rw [value?_tree v h] at hw
  split at hw
  · exact (Option.some.inj hw).symm
  · cases hw

end Trees

/-! ## Slots -/

/-- The slot of a field that an object has or has not. -/
def slotOf : Option Json → Slot
  | some v => .given v.tree
  | none => .absent

section Slots

variable {names : List String} {fields : List (String × Json)} {name : String} {t : Tree}
  {slot : String → Slot}

theorem fill_idxOf (hnodup : names.Nodup) (hmem : name ∈ names) (hfree : slot name = .absent) :
    fill (names.idxOf name) t (names.map slot) =
      some (names.map fun n => if n = name then .given t else slot n) := by
  induction names with
  | nil => cases hmem
  | cons first rest ih =>
    obtain ⟨hfirst, hrest⟩ := List.nodup_cons.mp hnodup
    by_cases hname : first = name
    · subst hname
      have hothers : (rest.map fun n => if n = first then .given t else slot n) =
          rest.map slot := by
        refine List.map_congr_left fun n hn => if_neg ?_
        rintro rfl
        exact hfirst hn
      rw [List.idxOf_cons_self, List.map_cons, hfree, List.map_cons, if_pos rfl, hothers]
      rfl
    · have hmem := (List.mem_cons.mp hmem).resolve_left (Ne.symm hname)
      rw [List.idxOf_cons, beq_eq_false_iff_ne.mpr hname, cond_false, List.map_cons,
        List.map_cons, if_neg hname, fill, ih hrest hmem]
      rfl

theorem fillAll_fieldTrees (hnodup : names.Nodup) (hfields : (fields.map (·.1)).Nodup)
    (hfree : ∀ p ∈ fields, slot p.1 = .absent) :
    fillAll names (fieldTrees fields) (names.map slot) = some (names.map fun n =>
      match Table.get? fields n with
      | some v => .given v.tree
      | none => slot n) := by
  induction fields generalizing slot with
  | nil => rfl
  | cons p rest ih =>
    obtain ⟨name, v⟩ := p
    obtain ⟨hname, hrest⟩ := List.nodup_cons.mp hfields
    have hfree' : ∀ q ∈ rest, (if q.1 = name then .given v.tree else slot q.1) = .absent := by
      intro q hq
      rw [if_neg, hfree q (List.mem_cons_of_mem _ hq)]
      rintro rfl
      exact hname (List.mem_map.mpr ⟨q, hq, rfl⟩)
    have hlater := @ih (fun n => if n = name then .given v.tree else slot n) hrest hfree'
    have hstep : fillAll names (fieldTrees ((name, v) :: rest)) (names.map slot) =
        fillAll names (fieldTrees rest)
          (names.map fun n => if n = name then .given v.tree else slot n) := by
      rw [fieldTrees, fillAll]
      by_cases hmem : name ∈ names
      · simp [hmem, fill_idxOf hnodup hmem (hfree _ List.mem_cons_self)]
      · have hsame : names.map slot =
            names.map fun n => if n = name then .given v.tree else slot n := by
          refine List.map_congr_left fun n hn => (if_neg ?_).symm
          rintro rfl
          exact hmem hn
        simp [hmem, ← hsame]
    rw [hstep, hlater]
    refine congrArg some (List.map_congr_left fun n _ => ?_)
    rw [Table.get?_cons]
    by_cases hn : name = n
    · subst hn
      have hnone : Table.get? rest name = none := Table.get?_eq_none_iff.mpr hname
      simp [hnone]
    · rw [if_neg hn, if_neg (Ne.symm hn)]

/-- An object read as a record has in each slot what its table has under the name. -/
theorem record?_tree (hnodup : names.Nodup) (h : Table.Ordered fields) :
    (Json.obj fields).tree.record? names =
      some (names.map fun n => slotOf (Table.get? fields n)) := by
  rw [tree, Tree.record?, fillAll_fieldTrees hnodup h.nodup (fun _ _ => rfl)]
  refine congrArg some (List.map_congr_left fun n _ => ?_)
  cases Table.get? fields n <;> rfl

/-- The pairs for the fields that are there. -/
def present (slots : List (String × Option Json)) : List (String × Json) :=
  slots.filterMap fun s => s.2.map (s.1, ·)

theorem present_cons (name : String) (x : Option Json) (slots : List (String × Option Json)) :
    present ((name, x) :: slots) = (x.map (name, ·)).toList ++ present slots := by
  cases x <;> rfl

theorem present_nil : present [] = [] := rfl

theorem names_present (slots : List (String × Option Json)) :
    ((present slots).map (·.1)).Sublist (slots.map (·.1)) := by
  induction slots with
  | nil => exact List.Sublist.slnil
  | cons s rest ih =>
    obtain ⟨n, x⟩ := s
    cases x with
    | none => exact ih.cons n
    | some v => exact ih.cons_cons n

theorem get?_present (hnodup : names.Nodup) (value : String → Option Json) (name : String) :
    Table.get? (present (names.map fun n => (n, value n))) name =
      if name ∈ names then value name else none := by
  induction names with
  | nil => rfl
  | cons n rest ih =>
    obtain ⟨hn, hrest⟩ := List.nodup_cons.mp hnodup
    have ih := ih hrest
    rw [List.map_cons, present_cons]
    cases hvalue : value n with
    | none =>
      rw [Option.map_none, Option.toList_none, List.nil_append, ih]
      by_cases hname : name = n
      · rw [hname, if_neg hn, if_pos List.mem_cons_self, hvalue]
      · simp [hname]
    | some v =>
      rw [Option.map_some, Option.toList_some, List.singleton_append, Table.get?_cons, ih]
      by_cases hname : n = name
      · rw [if_pos hname, ← hname, if_pos List.mem_cons_self, hvalue]
      · simp [hname, Ne.symm hname]

theorem get?_ofPairs_present (hnodup : names.Nodup) (value : String → Option Json)
    (name : String) :
    Table.get? (Table.ofPairs (present (names.map fun n => (n, value n)))) name =
      if name ∈ names then value name else none := by
  rw [Table.get?_ofPairs, get?_present hnodup]
  refine (names_present _).nodup ?_
  simpa [Function.comp_def] using hnodup

theorem field?_present (hnodup : names.Nodup) (value : String → Option Json) (name : String) :
    (ofPairs (present (names.map fun n => (n, value n)))).field? name =
      if name ∈ names then value name else none :=
  get?_ofPairs_present hnodup value name

/-- A record is higher than what it is written from. -/
theorem height_lt_of_slot (hnodup : names.Nodup) {value : String → Option Json} {v : Json}
    (hmem : name ∈ names) (hv : value name = some v) :
    v.height < (ofPairs (present (names.map fun n => (n, value n)))).height := by
  have hget := get?_ofPairs_present hnodup value name
  rw [if_pos hmem, hv] at hget
  exact height_lt_of_get? hget

/-- A record that is written from its slots is read as these slots. -/
theorem record?_present (hnodup : names.Nodup) (value : String → Option Json) :
    (ofPairs (present (names.map fun n => (n, value n)))).tree.record? names =
      some (names.map fun n => slotOf (value n)) := by
  rw [ofPairs, record?_tree hnodup (Table.ordered_ofPairs _)]
  refine congrArg some (List.map_congr_left fun n hn => ?_)
  rw [get?_ofPairs_present hnodup, if_pos hn]

/-- Whether a value is null. -/
def isNull : Json → Bool
  | .null => true
  | _ => false

/-- The fields of an object without those of other names and without the optional ones that are
null, the values being changed by name. -/
def tidied (names optional : List String) (change : String → Json → Json)
    (fields : List (String × Json)) : List (String × Json) :=
  (fields.filter fun p => names.contains p.1 && !(optional.contains p.1 && p.2.isNull)).map
    fun p => (p.1, change p.1 p.2)

theorem ordered_tidied (h : Table.Ordered fields) (names optional : List String)
    (change : String → Json → Json) : Table.Ordered (tidied names optional change fields) :=
  Table.ordered_filter_map h _ _

/-- The value of a field that is not null. -/
def stated (x : Option Json) : Option Json := x.filter (!·.isNull)

theorem get?_tidied (h : Table.Ordered fields) {names optional : List String}
    (hrequired : ∀ n ∈ names, n ∉ optional → Table.get? fields n ≠ some .null)
    (change : String → Json → Json) (name : String) :
    Table.get? (tidied names optional change fields) name =
      if name ∈ names then (stated (Table.get? fields name)).map (change name) else none := by
  unfold tidied
  rw [Table.get?_filter_map h (fun n v => names.contains n && !(optional.contains n && v.isNull))]
  by_cases hname : name ∈ names
  · rw [if_pos hname]
    congr 1
    unfold stated
    cases hvalue : Table.get? fields name with
    | none => rfl
    | some v =>
      by_cases hoptional : name ∈ optional
      · simp [Option.filter, hname, hoptional]
      · have hnull : v.isNull = false := by
          cases v with
          | null => exact absurd hvalue (hrequired name hname hoptional)
          | bool | num | str | arr | obj => rfl
        simp [Option.filter, hname, hnull]
  · rw [if_neg hname]
    cases Table.get? fields name <;> simp [Option.filter, hname]

/-- What is left of an object is what is written from its slots. -/
theorem present_eq_tidied (hnodup : names.Nodup) (h : Table.Ordered fields)
    {optional : List String}
    (hrequired : ∀ n ∈ names, n ∉ optional → Table.get? fields n ≠ some .null)
    (change : String → Json → Json) :
    Table.ofPairs (present
        (names.map fun n => (n, (stated (Table.get? fields n)).map (change n)))) =
      tidied names optional change fields := by
  refine Table.ext_get? (Table.ordered_ofPairs _) (ordered_tidied h _ _ _) fun name => ?_
  rw [get?_ofPairs_present hnodup fun n => (stated (Table.get? fields n)).map (change n),
    get?_tidied h hrequired]

end Slots

/-! ## Reading slots -/

section Reading

variable {α : Type} {read : Tree → Option α} {write : α → Json} {change : Json → Json}
  {x : Option Json} {a : α} {v : Json}

theorem string?_tree {s : String} (h : v.tree.string? = some s) : v = .str s := by
  cases v with
  | str => cases h; rfl
  | null | bool | num | arr | obj => cases h

theorem bool?_tree {b : Bool} (h : v.tree.bool? = some b) : v = .bool b := by
  cases v with
  | bool => cases h; rfl
  | null | str | num | arr | obj => cases h

theorem strings?_tree {texts : List String} (h : v.tree.strings? = some texts) :
    v = .arr (texts.map .str) := by
  cases v with
  | null | bool | str | num | obj => cases h
  | arr items =>
    have hitems : (treesOf items).mapM Tree.string? = some texts := h
    congr 1
    induction items generalizing texts with
    | nil => cases hitems; rfl
    | cons v rest ih =>
      rw [treesOf, List.mapM_cons] at hitems
      obtain ⟨text, htext, hrest⟩ := Option.bind_eq_some_iff.mp hitems
      obtain ⟨others, hothers, heq⟩ := Option.bind_eq_some_iff.mp hrest
      cases heq
      rw [List.map_cons, string?_tree htext, ← ih hothers hothers]

theorem strings?_texts (texts : List String) :
    (Json.arr (texts.map .str)).tree.strings? = some texts := by
  show (treesOf (texts.map .str)).mapM Tree.string? = some texts
  induction texts with
  | nil => rfl
  | cons text rest ih =>
    rw [List.map_cons, treesOf, List.mapM_cons, ih]
    rfl

/-- A value that may be left out is read as it is written. -/
theorem optional_map (hread : ∀ a, read (write a).tree = some a) (hnull : ∀ a, write a ≠ .null)
    (x : Option α) : (slotOf (x.map write)).optional read = some x := by
  cases x with
  | none => rfl
  | some a =>
    have hvalue := congrArg (Option.map some) (hread a)
    show (Slot.given (write a).tree).optional read = some (some a)
    cases hwritten : write a with
    | null => exact absurd hwritten (hnull a)
    | bool | num | str | arr | obj =>
      rw [hwritten] at hvalue
      exact hvalue

/-- What is read of a value that may be left out is written as it was, unless that was null. -/
theorem map_of_optional
    (hwrite : ∀ v, x = some v → v ≠ .null → ∀ a, read v.tree = some a → write a = change v)
    {r : Option α} (h : (slotOf x).optional read = some r) :
    r.map write = (stated x).map change := by
  cases x with
  | none =>
    cases h
    rfl
  | some v =>
    cases v with
    | null =>
      cases h
      rfl
    | bool | num | str | arr | obj =>
      obtain ⟨a, ha, rfl⟩ := Option.map_eq_some_iff.mp h
      exact congrArg some (hwrite _ rfl (by simp) a ha)

theorem exists_of_required (h : (slotOf x).required read = some a) :
    ∃ v, x = some v ∧ read v.tree = some a := by
  cases x with
  | none => cases h
  | some v => exact ⟨v, rfl, h⟩

theorem exists_of_withDefault {default : α} (h : (slotOf x).withDefault default read = some a) :
    x = none ∧ a = default ∨ ∃ v, x = some v ∧ read v.tree = some a := by
  cases x with
  | none => exact .inl ⟨rfl, (Option.some.inj h).symm⟩
  | some v => exact .inr ⟨v, rfl, h⟩

end Reading

end Json

end Workflow
