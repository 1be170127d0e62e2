import Mathlib.Data.List.Basic
import Workflow.Manager.Alarm

/- Changes of files that come to rest. A change counts for nothing if another one of the
   same file and kind follows before its delay is over, so of a burst the last one is left
   (`atRest_burst`), and changes of other files or kinds do not matter (`atRest_filter_key`).
   Each change that is left is an attempt, and a cooldown says which of these are accepted
   (`Cooldown.admitted`). -/
namespace Workflow

/-- A change of a file, as it is reported. -/
structure Report where
  time : Nat
  path : String
  kind : ChangeKind
  deriving DecidableEq, Repr, Inhabited

/-- What a report has in common with those that take its place: the file, however its path is
written, and the kind. -/
def Report.key (r : Report) : List Path.Part × ChangeKind := (Path.parts r.path, r.kind)

/-- Whether a report is followed by another one with its key less than a delay later. -/
def Report.Overtaken (delay : Nat) (r : Report) (later : List Report) : Prop :=
  ∃ s ∈ later, s.key = r.key ∧ s.time < r.time + delay

instance (delay : Nat) (r : Report) (later : List Report) : Decidable (r.Overtaken delay later) :=
  inferInstanceAs (Decidable (∃ s ∈ later, s.key = r.key ∧ s.time < r.time + delay))

/-- The reports that are not overtaken. -/
def atRest (delay : Nat) : List Report → List Report
  | [] => []
  | r :: later => if r.Overtaken delay later then atRest delay later else r :: atRest delay later

/-- The attempts that reports give rise to until a time: one for each that is not overtaken, when
the delay is over. -/
def attemptsFor (delay limit : Nat) (reports : List Report) : List (Nat × Report) :=
  ((atRest delay reports).map fun r => (r.time + delay, r)).filter (·.1 ≤ limit)

/-- The attempts that a cooldown accepts when they are made one after the other. -/
def Cooldown.admitted (c : Cooldown) : List (Nat × Report) → List (Nat × Report)
  | [] => []
  | a :: rest =>
    if (c.acquire a.1).2 then a :: (c.acquire a.1).1.admitted rest
    else (c.acquire a.1).1.admitted rest

section AtRest

variable {delay : Nat} {r : Report} {later waiting reports : List Report}

theorem atRest_cons_of_overtaken (h : r.Overtaken delay later) :
    atRest delay (r :: later) = atRest delay later := by
  rw [atRest, if_pos h]

theorem atRest_cons_of_last (h : ¬ r.Overtaken delay later) :
    atRest delay (r :: later) = r :: atRest delay later := by
  rw [atRest, if_neg h]

theorem atRest_sublist (delay : Nat) (reports : List Report) :
    (atRest delay reports).Sublist reports := by
  induction reports with
  | nil => exact List.Sublist.slnil
  | cons r later ih =>
    unfold atRest
    split
    · exact ih.cons r
    · exact ih.cons_cons r

/-- What is reported earlier does not matter for what is reported later. -/
theorem atRest_append (delay : Nat) (before after : List Report) :
    ∃ kept, kept.Sublist before ∧ atRest delay (before ++ after) = kept ++ atRest delay after := by
  induction before with
  | nil => exact ⟨[], List.Sublist.slnil, rfl⟩
  | cons r before ih =>
    obtain ⟨kept, hkept, heq⟩ := ih
    rw [List.cons_append]
    by_cases h : r.Overtaken delay (before ++ after)
    · rw [atRest_cons_of_overtaken h, heq]
      exact ⟨kept, hkept.cons r, rfl⟩
    · rw [atRest_cons_of_last h, heq]
      exact ⟨r :: kept, hkept.cons_cons r, rfl⟩

/-- A report may be taken to replace those with its key that wait in front of it. -/
theorem atRest_replace (h : ∀ x ∈ waiting, x.key = r.key → r.time < x.time + delay) :
    atRest delay (waiting ++ r :: later) =
      atRest delay (waiting.filter (·.key != r.key) ++ r :: later) := by
  induction waiting with
  | nil => rfl
  | cons x rest ih =>
    have ih := ih fun y hy => h y (List.mem_cons_of_mem x hy)
    rw [List.cons_append]
    by_cases hx : x.key = r.key
    · have hover : x.Overtaken delay (rest ++ r :: later) :=
        ⟨r, by simp, hx.symm, h x List.mem_cons_self hx⟩
      rw [atRest_cons_of_overtaken hover, ih, List.filter_cons_of_neg (by simp [hx])]
    · -- what is taken away has another key, so it does not overtake this one
      have hover : x.Overtaken delay (rest ++ r :: later) ↔
          x.Overtaken delay (rest.filter (·.key != r.key) ++ r :: later) := by
        unfold Report.Overtaken
        apply exists_congr
        intro s
        simp only [List.mem_append, List.mem_filter, bne_iff_ne]
        constructor
        · intro ⟨hs, hkey, htime⟩
          refine ⟨hs.imp_left fun hrest => ⟨hrest, ?_⟩, hkey, htime⟩
          rw [hkey]
          exact hx
        · intro ⟨hs, hkey, htime⟩
          exact ⟨hs.imp_left (·.1), hkey, htime⟩
      rw [List.filter_cons_of_pos (by simp [hx]), List.cons_append, atRest, atRest, ih]
      simp only [hover]

/-- Reports with other keys do not matter. -/
theorem atRest_filter_key (delay : Nat) (reports : List Report)
    (key : List Path.Part × ChangeKind) :
    (atRest delay reports).filter (·.key == key) =
      atRest delay (reports.filter (·.key == key)) := by
  induction reports with
  | nil => rfl
  | cons r later ih =>
    by_cases hkey : r.key = key
    · have hover : r.Overtaken delay (later.filter (·.key == key)) ↔ r.Overtaken delay later := by
        subst hkey
        simp [Report.Overtaken, and_assoc]
      rw [List.filter_cons_of_pos (by simp [hkey]), atRest, atRest, ← ih]
      simp only [hover]
      split
      · rfl
      · exact List.filter_cons_of_pos (by simp [hkey])
    · rw [List.filter_cons_of_neg (by simp [hkey]), ← ih, atRest]
      split
      · rfl
      · exact List.filter_cons_of_neg (by simp [hkey])

/-- Of a burst, each report less than the delay behind the one before it, the last is left. -/
theorem atRest_burst {burst : List Report} {last : Report}
    (one : ∀ s ∈ burst, s.key = last.key)
    (chain : (burst ++ [last]).IsChain fun x y => y.time < x.time + delay)
    (quiet : ¬ last.Overtaken delay later) :
    atRest delay (burst ++ last :: later) = last :: atRest delay later := by
  induction burst with
  | nil => exact atRest_cons_of_last quiet
  | cons x rest ih =>
    have hx := one x List.mem_cons_self
    have hrest : ∀ s ∈ rest, s.key = last.key := fun s hs => one s (List.mem_cons_of_mem x hs)
    -- the next report of the burst, be it the last one or not, comes in time
    have hover : x.Overtaken delay (rest ++ last :: later) := by
      cases rest with
      | nil =>
        have hnext : last.time < x.time + delay := by simpa using chain
        exact ⟨last, by simp, hx.symm, hnext⟩
      | cons y rest =>
        obtain ⟨hnext, -⟩ := List.isChain_cons_cons.mp chain
        exact ⟨y, by simp, (hrest y List.mem_cons_self).trans hx.symm, hnext⟩
    rw [List.cons_append, atRest_cons_of_overtaken hover]
    exact ih hrest chain.of_cons

theorem attemptsFor_cons {limit : Nat} (hlast : ¬ r.Overtaken delay later)
    (hdue : r.time + delay ≤ limit) :
    attemptsFor delay limit (r :: later) =
      (r.time + delay, r) :: attemptsFor delay limit later := by
  unfold attemptsFor
  rw [atRest_cons_of_last hlast, List.map_cons, List.filter_cons_of_pos (by simpa using hdue)]

theorem attemptsFor_eq_nil {limit : Nat} (h : ∀ r ∈ reports, limit < r.time + delay) :
    attemptsFor delay limit reports = [] := by
  unfold attemptsFor
  rw [List.filter_eq_nil_iff]
  intro a ha
  obtain ⟨r, hr, rfl⟩ := List.mem_map.mp ha
  have := h r ((atRest_sublist delay reports).subset hr)
  simpa using this

/-- Attempts are made in the order of time, and those of one time in the order of their reports. -/
theorem attemptsFor_ordered {limit : Nat} (h : reports.Pairwise fun r s => r.time ≤ s.time) :
    (attemptsFor delay limit reports).Pairwise fun a b => a.1 ≤ b.1 := by
  refine List.Pairwise.filter _ (List.pairwise_map.mpr ?_)
  exact (h.sublist (atRest_sublist delay reports)).imp fun hle => Nat.add_le_add_right hle delay

end AtRest

end Workflow
