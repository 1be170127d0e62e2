/-
  Tables of named values: lists of pairs in strictly increasing order of their
  names, by code point, so that equal tables are equal lists.

  Statements: `get?_insert` — after a name is set it finds the new value, and
  every other name finds what it found before; `insert_insert` and `insert_comm` —
  of two settings of one name the later one counts, and settings of different
  names may change places; `ordered_insert` and `mem_iff_get?` — the order of the
  names is kept, and by it every entry is found.
-/
namespace Workflow

/-- A table of values by name. -/
abbrev Table (α : Type u) := List (String × α)

namespace Table

/-- The value of a name. -/
def get? (table : Table α) (name : String) : Option α :=
  (table.find? (·.1 == name)).map (·.2)

/-- Whether a name has a value. -/
def contains (table : Table α) (name : String) : Bool := (table.get? name).isSome

/-- The table with one name set, at the place the name has in the order. -/
def insert (name : String) (value : α) : Table α → Table α
  | [] => [(name, value)]
  | (n, v) :: rest =>
    if name = n then (name, value) :: rest
    else if name < n then (name, value) :: (n, v) :: rest
    else (n, v) :: insert name value rest

/-- The table without a name. -/
def erase (table : Table α) (name : String) : Table α := table.filter (·.1 != name)

/-- The table with pairs set one after the other. -/
def insertAll (table : Table α) (pairs : List (String × α)) : Table α :=
  pairs.foldl (fun t p => insert p.1 p.2 t) table

/-- The table of a list of pairs; of two pairs of one name the later one counts. -/
def ofPairs (pairs : List (String × α)) : Table α := insertAll [] pairs

/-- The names of a table, in order. -/
def names (table : Table α) : List String := table.map (·.1)

/-- Whether the names of a table stand in their order, each once. -/
def Ordered (table : Table α) : Prop := table.names.Pairwise (· < ·)

theorem get?_nil (name : String) : get? ([] : Table α) name = none := rfl

theorem get?_cons (n name : String) (v : α) (rest : Table α) :
    get? ((n, v) :: rest) name = if n = name then some v else get? rest name := by
  by_cases h : n = name <;> simp [get?, h]

theorem mem_of_get? {table : Table α} {name : String} {value : α}
    (h : table.get? name = some value) : (name, value) ∈ table := by
  obtain ⟨⟨n, w⟩, hfound, rfl⟩ := Option.map_eq_some_iff.mp h
  obtain rfl : n = name := by simpa using List.find?_some hfound
  exact List.mem_of_find?_eq_some hfound

theorem get?_insert (table : Table α) (name other : String) (value : α) :
    get? (insert name value table) other =
      if name = other then some value else get? table other := by
  induction table with
  | nil => simp [insert, get?_cons]
  | cons p rest ih =>
    obtain ⟨n, v⟩ := p
    by_cases hn : name = n
    · subst hn
      simp only [insert, if_true, get?_cons]
      split <;> rfl
    · by_cases hlt : name < n
      · simp [insert, hn, hlt, get?_cons]
      · simp only [insert, hn, hlt, if_false, get?_cons, ih]
        by_cases hno : n = other
        · have : ¬ name = other := fun h => hn (h.trans hno.symm)
          simp [hno, this]
        · simp [hno]

theorem get?_insertAll_of_absent {table : Table α} {pairs : List (String × α)} {name : String}
    (h : name ∉ pairs.map (·.1)) : get? (insertAll table pairs) name = get? table name := by
  unfold insertAll
  induction pairs generalizing table with
  | nil => rfl
  | cons pair rest ih =>
    simp only [List.map_cons, List.mem_cons, not_or] at h
    rw [List.foldl_cons, ih h.2, get?_insert, if_neg (Ne.symm h.1)]

theorem get?_erase_self (table : Table α) (name : String) :
    get? (erase table name) name = none := by
  simp [get?, erase]

theorem get?_erase_of_ne {table : Table α} {name other : String} (h : other ≠ name) :
    get? (erase table name) other = get? table other := by
  unfold erase
  induction table with
  | nil => rfl
  | cons entry rest ih =>
    obtain ⟨n, v⟩ := entry
    by_cases hn : n = name
    · have hother : ¬ n = other := fun heq => h (heq.symm.trans hn)
      rw [List.filter_cons_of_neg (by simp [hn]), ih, get?_cons, if_neg hother]
    · rw [List.filter_cons_of_pos (by simp [hn]), get?_cons, get?_cons, ih]

theorem length_le_insert (table : Table α) (name : String) (value : α) :
    table.length ≤ (insert name value table).length := by
  induction table with
  | nil => simp
  | cons entry rest ih =>
    obtain ⟨n, v⟩ := entry
    simp only [insert]
    split
    · simp
    · split
      · simp
      · simpa using ih

theorem length_insert_of_unknown {table : Table α} {name : String}
    (h : table.get? name = none) (value : α) :
    (insert name value table).length = table.length + 1 := by
  induction table with
  | nil => rfl
  | cons entry rest ih =>
    obtain ⟨n, v⟩ := entry
    rw [get?_cons] at h
    split at h
    · cases h
    · rename_i hne
      simp only [insert, if_neg (Ne.symm hne)]
      split
      · rfl
      · simp [ih h]

theorem mem_names_insert (table : Table α) (name other : String) (value : α) :
    other ∈ (insert name value table).names ↔ other = name ∨ other ∈ table.names := by
  induction table with
  | nil => simp [insert, names]
  | cons p rest ih =>
    obtain ⟨n, v⟩ := p
    unfold names at ih ⊢
    by_cases hn : name = n
    · simp [insert, hn]
    · by_cases hlt : name < n
      · simp [insert, hn, hlt]
      · simp only [insert, hn, hlt, if_false, List.map_cons, List.mem_cons, ih]
        constructor
        · rintro (rfl | rfl | h) <;> simp [*]
        · rintro (rfl | rfl | h) <;> simp [*]

theorem ordered_insert {table : Table α} (h : table.Ordered) (name : String) (value : α) :
    (insert name value table).Ordered := by
  induction table with
  | nil => simp [Ordered, insert, names]
  | cons p rest ih =>
    obtain ⟨n, v⟩ := p
    obtain ⟨hhead, hrest⟩ := List.pairwise_cons.mp h
    by_cases hn : name = n
    · rw [insert, if_pos hn, hn]
      exact h
    · by_cases hlt : name < n
      · rw [insert, if_neg hn, if_pos hlt]
        refine List.pairwise_cons.mpr ⟨fun other hother => ?_, h⟩
        rcases List.mem_cons.mp hother with rfl | hother
        · exact hlt
        · exact String.lt_trans hlt (hhead other hother)
      · rw [insert, if_neg hn, if_neg hlt]
        refine List.pairwise_cons.mpr ⟨fun other hother => ?_, ih hrest⟩
        rcases (mem_names_insert rest name other value).mp hother with rfl | hother
        · exact Std.lt_of_le_of_ne (String.not_lt.mp hlt) (Ne.symm hn)
        · exact hhead other hother

/-- A table in order has each of its entries found. -/
theorem mem_iff_get? {table : Table α} (h : table.Ordered) (name : String) (value : α) :
    (name, value) ∈ table ↔ table.get? name = some value := by
  induction table with
  | nil => simp [get?_nil]
  | cons p rest ih =>
    obtain ⟨n, v⟩ := p
    obtain ⟨hhead, hrest⟩ := List.pairwise_cons.mp h
    rw [get?_cons, List.mem_cons, Prod.mk.injEq]
    by_cases hn : n = name
    · subst hn
      -- the names behind the head come after it
      have habsent : (n, value) ∉ rest := fun hmem =>
        String.lt_irrefl n (hhead n (List.mem_map_of_mem hmem))
      simp [habsent, eq_comm]
    · simp [hn, Ne.symm hn, ih hrest]

theorem ordered_erase {table : Table α} (h : table.Ordered) (name : String) :
    (erase table name).Ordered :=
  h.sublist (List.filter_sublist.map _)

/-- A new name adds one entry. -/
theorem insert_perm {table : Table α} {name : String} (h : table.get? name = none) (value : α) :
    (insert name value table).Perm ((name, value) :: table) := by
  induction table with
  | nil => exact .refl _
  | cons entry rest ih =>
    obtain ⟨n, v⟩ := entry
    rw [get?_cons] at h
    split at h
    · cases h
    · rename_i hne
      rw [insert, if_neg (Ne.symm hne)]
      split
      · exact .refl _
      · exact ((ih h).cons _).trans (.swap ..)

/-- Of a table in order, erasing a name takes one entry. -/
theorem erase_perm {table : Table α} (h : table.Ordered) {name : String} {value : α}
    (hget : table.get? name = some value) : table.Perm ((name, value) :: erase table name) := by
  induction table with
  | nil => cases hget
  | cons entry rest ih =>
    obtain ⟨n, v⟩ := entry
    obtain ⟨hhead, hrest⟩ := List.pairwise_cons.mp h
    rw [get?_cons] at hget
    unfold erase
    by_cases hn : n = name
    · subst hn
      rw [if_pos rfl] at hget
      cases hget
      -- the names behind the head come after it
      have hkept : rest.filter (·.1 != n) = rest := by
        refine List.filter_eq_self.mpr fun other hother => ?_
        have hlt := hhead other.1 (List.mem_map_of_mem hother)
        exact bne_iff_ne.mpr fun heq => String.lt_irrefl n (heq ▸ hlt)
      rw [List.filter_cons_of_neg (by simp), hkept]
    · rw [if_neg hn] at hget
      rw [List.filter_cons_of_pos (by simpa using hn)]
      exact ((ih hrest hget).cons _).trans (.swap ..)

theorem insert_insert (table : Table α) (name : String) (old value : α) :
    insert name value (insert name old table) = insert name value table := by
  induction table with
  | nil => simp [insert]
  | cons p rest ih =>
    obtain ⟨n, v⟩ := p
    by_cases hn : name = n
    · simp [insert, hn]
    · by_cases hlt : name < n
      · simp [insert, hn, hlt]
      · simp [insert, hn, hlt, ih]

theorem insert_comm_of_lt (table : Table α) {first second : String} (h : first < second)
    (x y : α) :
    insert second y (insert first x table) = insert first x (insert second y table) := by
  have hne : first ≠ second := fun heq => String.lt_irrefl second (heq ▸ h)
  have hnot : ¬ second < first := String.lt_asymm h
  induction table with
  | nil => simp [insert, h, hne, hne.symm, hnot]
  | cons p rest ih =>
    obtain ⟨n, v⟩ := p
    by_cases hn : first = n
    · subst hn
      simp [insert, hne.symm, hnot]
    · by_cases hlt : first < n
      · by_cases hsn : second = n
        · subst hsn
          simp [insert, hne, hne.symm, hnot, h]
        · by_cases hslt : second < n
          · simp [insert, hn, hlt, hsn, hslt, hne, hne.symm, hnot, h]
          · simp [insert, hn, hlt, hsn, hslt, hne.symm, hnot]
      · -- the name at the head comes before both
        have hhead : n < first := Std.lt_of_le_of_ne (String.not_lt.mp hlt) (Ne.symm hn)
        have hbefore : n < second := String.lt_trans hhead h
        have hsn : second ≠ n := fun heq => String.lt_irrefl n (heq ▸ hbefore)
        have hslt : ¬ second < n := String.lt_asymm hbefore
        simp [insert, hn, hlt, hsn, hslt, ih]

/-- The order in which two names are set makes no difference. -/
theorem insert_comm (table : Table α) {first second : String} (h : first ≠ second) (x y : α) :
    insert second y (insert first x table) = insert first x (insert second y table) := by
  by_cases hlt : first < second
  · exact insert_comm_of_lt table hlt x y
  · have hgt : second < first := Std.lt_of_le_of_ne (String.not_lt.mp hlt) h.symm
    exact (insert_comm_of_lt table hgt y x).symm

end Table

end Workflow
