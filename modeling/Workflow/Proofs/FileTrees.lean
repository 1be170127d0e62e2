import Workflow.FileTree

/- What every tree of files is like that is built from the empty one, and what is read from a file
   that has been written. No place has two entries and names are such as files have (`Sound`); each
   operation keeps that. A file that was written has its content (`content?_write?`), as nothing on
   the way to it has changed (`walk_put_file`). -/
namespace Workflow

namespace Path

/-- Whether a text can be the name of a file. -/
def Nameable (name : String) : Prop := name ≠ "" ∧ '/' ∉ name.toList

theorem not_mem_of_mem_pieces {mark : Char} {cs piece : List Char}
    (h : piece ∈ Text.pieces mark cs) : mark ∉ piece := by
  induction cs generalizing piece with
  | nil =>
    obtain rfl := List.mem_singleton.mp h
    exact List.not_mem_nil
  | cons c rest ih =>
    unfold Text.pieces at h
    split at h
    case isTrue =>
      rcases List.mem_cons.mp h with rfl | hmem
      · exact List.not_mem_nil
      · exact ih hmem
    case isFalse hne =>
      split at h
      case h_1 =>
        obtain rfl := List.mem_singleton.mp h
        simpa using Ne.symm hne
      case h_2 p ps hrest =>
        rcases List.mem_cons.mp h with rfl | hmem
        · intro hc
          rcases List.mem_cons.mp hc with rfl | hc
          · exact hne rfl
          · exact ih (hrest ▸ List.mem_cons_self) hc
        · exact ih (hrest ▸ List.mem_cons_of_mem p hmem)

/-- The names among the parts of a path can be names of files. -/
theorem nameable_of_mem_parts {path name : String} (h : .name name ∈ parts path) :
    Nameable name := by
  have hpieces : ∀ piece ∈ (split path).2, '/' ∉ piece := by
    intro piece hpiece
    unfold split at hpiece
    split at hpiece
    · exact not_mem_of_mem_pieces hpiece
    · split at hpiece
      · rename_i hcut
        exact not_mem_of_mem_pieces (hcut ▸ List.mem_cons_of_mem _ hpiece)
      · exact not_mem_of_mem_pieces hpiece
  have hfront : .name name ∉ (split path).1 := by
    unfold split
    split
    · simp
    · split <;> simp
  have hbehind := (List.mem_append.mp h).resolve_left hfront
  obtain ⟨piece, hpiece, hpart⟩ := List.mem_map.mp hbehind
  obtain ⟨hmem, hidle⟩ := List.mem_filter.mp hpiece
  unfold partOf at hpart
  split at hpart
  · cases hpart
  · obtain rfl := Part.name.inj hpart
    constructor
    · rintro hempty
      have hnil : piece = [] := by simpa using congrArg String.toList hempty
      simp [hnil, idle] at hidle
    · rw [String.toList_ofList]
      exact hpieces piece hmem

end Path

namespace FileTree

/-- Whether a tree is one of files: there is one entry at each place, and the names are such as
files have. -/
structure Sound (tree : FileTree) : Prop where
  places : (tree.entries.map (·.1)).Nodup
  names : ∀ e ∈ tree.entries, ∀ name ∈ e.1, Path.Nameable name
  here : ∀ name ∈ tree.here, Path.Nameable name

variable {tree tree' : FileTree} {place last : List String} {parts : List Path.Part}
  {path : String} {e : FileEntry} {content : Text.Octets}

/-! ## Soundness -/

theorem sound_empty : empty.Sound := by
  constructor <;> simp [empty]

theorem Sound.filter (h : tree.Sound) (kept : List String × FileEntry → Bool) :
    Sound { tree with entries := tree.entries.filter kept } where
  places := h.places.sublist (List.filter_sublist.map _)
  names e he := h.names e (List.mem_filter.mp he).1
  here := h.here

theorem Sound.put (h : tree.Sound) (hplace : ∀ name ∈ place, Path.Nameable name)
    (e : FileEntry) : (tree.put place e).Sound where
  places := by
    have hrest := (h.filter (·.1 != place)).places
    rw [FileTree.put, List.map_append, List.nodup_append]
    refine ⟨hrest, by simp, ?_⟩
    intro p hp q hq
    obtain rfl := List.mem_singleton.mp hq
    obtain ⟨entry, hentry, rfl⟩ := List.mem_map.mp hp
    simpa using (List.mem_filter.mp hentry).2
  names := by
    intro entry hentry
    rcases List.mem_append.mp hentry with hmem | hmem
    · exact h.names entry (List.mem_filter.mp hmem).1
    · obtain rfl := List.mem_singleton.mp hmem
      exact hplace
  here := h.here

/-- A walk leads to a place with names that a file can have. -/
theorem nameable_of_walk (hparts : ∀ name, .name name ∈ parts → Path.Nameable name)
    (hplace : ∀ name ∈ place, Path.Nameable name) (h : tree.walk place parts = some last) :
    ∀ name ∈ last, Path.Nameable name := by
  induction parts generalizing place with
  | nil =>
    obtain rfl := Option.some.inj h
    exact hplace
  | cons part rest ih =>
    have hrest := fun name hname => hparts name (List.mem_cons_of_mem part hname)
    unfold walk at h
    split at h
    · cases h
    · cases part with
      | root => exact ih hrest (by simp) h
      | here => exact ih hrest hplace h
      | up => exact ih hrest (fun name hname => hplace name (List.dropLast_subset _ hname)) h
      | name n =>
        refine ih hrest (fun name hname => ?_) h
        rcases List.mem_append.mp hname with hname | hname
        · exact hplace name hname
        · obtain rfl := List.mem_singleton.mp hname
          exact hparts name List.mem_cons_self

theorem walk_of_resolve (h : tree.resolve path = some place) :
    tree.walk tree.here (Path.parts path) = some place := by
  unfold resolve at h
  split at h
  · cases h
  · obtain ⟨found, hwalk, hfound⟩ := Option.bind_eq_some_iff.mp h
    split at hfound
    · cases hfound
    · rwa [Option.some.inj hfound] at hwalk

theorem Sound.resolve (h : tree.Sound) (hplace : tree.resolve path = some place) :
    ∀ name ∈ place, Path.Nameable name :=
  nameable_of_walk (fun _ => Path.nameable_of_mem_parts) h.here (walk_of_resolve hplace)

theorem write?_eq_some_iff : tree.write? path content = some tree' ↔
    ∃ place, tree.resolve path = some place ∧ tree.directoryAt place.dropLast = true ∧
      tree.directoryAt place = false ∧ tree' = tree.put place (.file content) := by
  unfold write?
  constructor
  · intro h
    obtain ⟨place, hplace, hput⟩ := Option.bind_eq_some_iff.mp h
    split at hput
    · cases hput
    · rename_i hfree
      simp only [Bool.or_eq_true, Bool.not_eq_true', not_or, Bool.not_eq_false,
        Bool.not_eq_true] at hfree
      exact ⟨place, hplace, hfree.1, hfree.2, (Option.some.inj hput).symm⟩
  · rintro ⟨place, hplace, hway, hfree, rfl⟩
    exact Option.bind_eq_some_iff.mpr ⟨place, hplace, by simp [hway, hfree]⟩

theorem Sound.write? (h : tree.Sound) (hwrite : tree.write? path content = some tree') :
    tree'.Sound := by
  obtain ⟨place, hplace, -, -, rfl⟩ := write?_eq_some_iff.mp hwrite
  exact h.put (h.resolve hplace) _

theorem Sound.makeAlong (h : tree.Sound) (hparts : ∀ name, .name name ∈ parts → Path.Nameable name)
    (hplace : ∀ name ∈ place, Path.Nameable name) (hmake : tree.makeAlong place parts = some tree') :
    tree'.Sound := by
  induction parts generalizing tree place with
  | nil =>
    obtain rfl := Option.some.inj hmake
    exact h
  | cons part rest ih =>
    have hrest := fun name hname => hparts name (List.mem_cons_of_mem part hname)
    cases part with
    | root => exact ih h hrest (by simp) hmake
    | here => exact ih h hrest hplace hmake
    | up =>
      exact ih h hrest (fun name hname => hplace name (List.dropLast_subset _ hname)) hmake
    | name n =>
      have hnext : ∀ name ∈ place ++ [n], Path.Nameable name := by
        intro name hname
        rcases List.mem_append.mp hname with hname | hname
        · exact hplace name hname
        · obtain rfl := List.mem_singleton.mp hname
          exact hparts name List.mem_cons_self
      simp only [FileTree.makeAlong] at hmake
      split at hmake
      · cases hmake
      · exact ih h hrest hnext hmake
      · exact ih (h.put hnext .directory) hrest hnext hmake

theorem Sound.makeDirectories? (h : tree.Sound) (hmake : tree.makeDirectories? path = some tree') :
    tree'.Sound :=
  h.makeAlong (fun _ => Path.nameable_of_mem_parts) h.here hmake

theorem Sound.getD (h : tree.Sound) {next : Option FileTree}
    (hnext : ∀ tree', next = some tree' → tree'.Sound) : (next.getD tree).Sound := by
  cases next with
  | none => exact h
  | some tree' => exact hnext tree' rfl

theorem Sound.plant (h : tree.Sound) (path : String) (content : Text.Octets) :
    (tree.plant path content).Sound := by
  unfold FileTree.plant
  dsimp only
  split
  · rename_i dir _
    have hmade : ((tree.makeDirectories? dir).getD tree).Sound :=
      h.getD fun tree' => h.makeDirectories?
    exact hmade.getD fun tree' => hmade.write?
  · exact h.getD fun tree' => h.write?

theorem Sound.removeFile? (h : tree.Sound) (hremove : tree.removeFile? path = some tree') :
    tree'.Sound := by
  unfold FileTree.removeFile? at hremove
  obtain ⟨place, -, hrest⟩ := Option.bind_eq_some_iff.mp hremove
  split at hrest
  · obtain rfl := Option.some.inj hrest
    exact h.filter _
  · cases hrest

theorem Sound.enter? (h : tree.Sound) (henter : tree.enter? path = some tree') : tree'.Sound := by
  unfold FileTree.enter? at henter
  obtain ⟨place, hplace, hrest⟩ := Option.bind_eq_some_iff.mp henter
  split at hrest
  · obtain rfl := Option.some.inj hrest
    exact ⟨h.places, h.names, h.resolve hplace⟩
  · cases hrest

/-! ## Reading what was written -/

theorem at?_put (hplace : place ≠ []) (e : FileEntry) (other : List String) :
    (tree.put place e).at? other = if other = place then some e else tree.at? other := by
  unfold at? put
  by_cases hother : other = []
  · rw [hother, if_neg (Ne.symm hplace)]
    rfl
  · have hempty : ¬ other.isEmpty = true := by simpa using hother
    rw [if_neg hempty, if_neg hempty, List.find?_append]
    split
    case isTrue heq =>
      have hgone : (tree.entries.filter (·.1 != place)).find? (·.1 == other) = none := by
        rw [List.find?_eq_none, heq]
        intro entry hentry
        simpa using (List.mem_filter.mp hentry).2
      rw [hgone, heq]
      simp
    case isFalse hne =>
      have hkept : (tree.entries.filter (·.1 != place)).find? (·.1 == other) =
          tree.entries.find? (·.1 == other) := by
        rw [List.find?_filter]
        congr 1
        funext entry
        by_cases hentry : entry.1 = other
        · simp [hentry, hne]
        · simp [hentry]
      have hput : [(place, e)].find? (·.1 == other) = none := by simp [Ne.symm hne]
      rw [hkept, hput, Option.or_none]

theorem ne_nil_of_not_directoryAt (h : tree.directoryAt place = false) : place ≠ [] := by
  rintro rfl
  simp [directoryAt, at?] at h

/-- A file put where no directory is leaves all directories. -/
theorem directoryAt_put_file (h : tree.directoryAt place = false) (content : Text.Octets)
    (other : List String) :
    (tree.put place (.file content)).directoryAt other = tree.directoryAt other := by
  unfold directoryAt
  rw [at?_put (ne_nil_of_not_directoryAt h)]
  split
  case isTrue heq =>
    rw [heq]
    unfold directoryAt at h
    rw [h]
    rfl
  case isFalse => rfl

theorem walk_put_file (h : tree.directoryAt place = false) (content : Text.Octets)
    (parts : List Path.Part) (start : List String) :
    (tree.put place (.file content)).walk start parts = tree.walk start parts := by
  induction parts generalizing start with
  | nil => rfl
  | cons part rest ih =>
    unfold walk
    rw [directoryAt_put_file h]
    cases part <;> simp only [ih]

theorem resolve_put_file (h : tree.directoryAt place = false) (content : Text.Octets)
    (path : String) : (tree.put place (.file content)).resolve path = tree.resolve path := by
  unfold resolve
  simp only [directoryAt_put_file h, walk_put_file h]
  rfl

theorem content?_eq_some_iff :
    tree.content? path = some content ↔ tree.entry? path = some (.file content) := by
  unfold content?
  split
  case h_1 octets hfile => simp [hfile]
  case h_2 hother =>
    constructor
    · intro h
      cases h
    · intro h
      exact absurd h (hother content)

theorem isFile_iff :
    tree.isFile path = true ↔ ∃ content, tree.entry? path = some (.file content) := by
  simp only [isFile, Option.isSome_iff_exists, content?_eq_some_iff]

/-- A file that has been written has its content. -/
theorem content?_write? (h : tree.write? path content = some tree') :
    tree'.content? path = some content := by
  obtain ⟨place, hplace, -, hfree, rfl⟩ := write?_eq_some_iff.mp h
  unfold content? entry?
  rw [resolve_put_file hfree, hplace, Option.bind_some, at?_put (ne_nil_of_not_directoryAt hfree),
    if_pos rfl]

end FileTree

end Workflow
