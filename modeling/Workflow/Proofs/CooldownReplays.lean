import Workflow.Proofs.WebhookAnswers

/- Replays of a cooldown. What a cooldown has said to questions, one after the other, is
   known by its last accepted answer alone, so rejected questions leave no trace
   (`Judged.thinned`), and whether a question is accepted is a matter of the accepted ones
   before it (`Judged.accepted_iff`). -/
namespace Workflow

/-- A trial of a trigger. -/
structure Trial where
  time : Nat
  /-- Whether the trigger had been disposed of. -/
  disposed : Bool
  accepted : Bool
  deriving DecidableEq

/-- What a trial is before anything is said about it. -/
def Trial.question (x : Trial) : Nat × Bool := (x.time, x.disposed)

namespace Cooldown

/-- What a cooldown says to questions, one after the other; those put to a trigger that has been
disposed of do not get to it. -/
def decide (c : Cooldown) : List (Nat × Bool) → List Bool
  | [] => []
  | (time, disposed) :: rest =>
    if disposed then false :: c.decide rest
    else (c.acquire time).2 :: (c.acquire time).1.decide rest

/-- The cooldown after a trial. -/
def noted (c : Cooldown) (x : Trial) : Cooldown :=
  if x.accepted then { c with last := some x.time } else c

theorem noted_window (c : Cooldown) (x : Trial) : (c.noted x).window = c.window := by
  unfold noted
  split <;> rfl

/-- Whether a cooldown has no accepted trial behind a time. -/
def Before (c : Cooldown) (time : Nat) : Prop := ∀ last, c.last = some last → last ≤ time

end Cooldown

/-- Whether trials came out as a cooldown makes them. -/
def Judged (c : Cooldown) (trials : List Trial) : Prop :=
  trials.map (·.accepted) = c.decide (trials.map (·.question))

/-- Whether some trials are left of others when only rejected ones are taken away. -/
inductive Thinned : List Trial → List Trial → Prop where
  | nil : Thinned [] []
  | keep {kept all : List Trial} (x : Trial) (rest : Thinned kept all) :
      Thinned (x :: kept) (x :: all)
  | drop {kept all : List Trial} {x : Trial} (rejected : x.accepted = false)
      (rest : Thinned kept all) : Thinned kept (x :: all)

section Replay

variable {c : Cooldown} {x : Trial} {trials rest : List Trial}

theorem judged_cons :
    Judged c (x :: rest) ↔
      x.accepted = (!x.disposed && c.accepts x.time) ∧ Judged (c.noted x) rest := by
  obtain ⟨time, disposed, accepted⟩ := x
  simp only [Judged, List.map_cons, Trial.question, Cooldown.decide, Cooldown.noted,
    Cooldown.acquire]
  cases disposed with
  | true => cases accepted <;> simp
  | false => cases c.accepts time <;> cases accepted <;> simp

/-- Rejected trials may be taken away: they leave no trace. -/
theorem Judged.thinned {kept : List Trial} (h : Judged c trials) (hk : Thinned kept trials) :
    Judged c kept := by
  induction hk generalizing c with
  | nil => exact h
  | keep x _ ih =>
    obtain ⟨hx, hrest⟩ := judged_cons.mp h
    exact judged_cons.mpr ⟨hx, ih hrest⟩
  | drop rejected _ ih =>
    obtain ⟨-, hrest⟩ := judged_cons.mp h
    refine ih ?_
    rwa [Cooldown.noted, rejected] at hrest

/-- A trial is accepted if the trigger is there and every accepted one lies a window back. -/
theorem Judged.accepted_iff {before after : List Trial} (h : Judged c (before ++ x :: after))
    (hc : ∀ y ∈ before ++ x :: after, c.Before y.time)
    (htimes : (before ++ x :: after).Pairwise fun a b => a.time ≤ b.time) :
    x.accepted = true ↔ x.disposed = false ∧
      (∀ last, c.last = some last → last + c.window ≤ x.time) ∧
      ∀ y ∈ before, y.accepted = true → y.time + c.window ≤ x.time := by
  induction before generalizing c with
  | nil =>
    obtain ⟨hx, -⟩ := judged_cons.mp h
    have hbefore := hc x (by simp)
    rw [hx, Bool.and_eq_true, Bool.not_eq_true', Manager.accepts_iff]
    constructor
    · rintro ⟨hd, hlast⟩
      refine ⟨hd, fun last hl => ?_, by simp⟩
      have := hlast last hl
      have := hbefore last hl
      omega
    · rintro ⟨hd, hlast, -⟩
      refine ⟨hd, fun last hl => ?_⟩
      have := hlast last hl
      omega
  | cons y before ih =>
    obtain ⟨-, hrest⟩ := judged_cons.mp h
    obtain ⟨hfirst, hpairs⟩ := List.pairwise_cons.mp htimes
    have hy := hc y (by simp)
    have hyx := hfirst x (by simp)
    cases ha : y.accepted with
    | true =>
      have hnoted : c.noted y = { c with last := some y.time } := by simp [Cooldown.noted, ha]
      rw [hnoted] at hrest
      have := ih hrest (fun z hz last hl => by cases hl; exact hfirst z hz) hpairs
      rw [this]
      -- the accepted trial takes the place of the one that the cooldown knew
      constructor
      · rintro ⟨hd, hlast, hall⟩
        have hspace := hlast y.time rfl
        refine ⟨hd, fun last hl => ?_, fun z hz hza => ?_⟩
        · have := hy last hl
          dsimp only at hspace
          omega
        · rcases List.mem_cons.mp hz with rfl | hz
          · exact hspace
          · exact hall z hz hza
      · rintro ⟨hd, -, hall⟩
        refine ⟨hd, fun last hl => ?_, fun z hz hza => hall z (List.mem_cons_of_mem _ hz) hza⟩
        cases hl
        exact hall y (by simp) ha
    | false =>
      have hnoted : c.noted y = c := by simp [Cooldown.noted, ha]
      rw [hnoted] at hrest
      rw [ih hrest (fun z hz => hc z (List.mem_cons_of_mem _ hz)) hpairs]
      simp [ha]

/-- Accepted trials are a window apart. -/
theorem Judged.apart (h : Judged c trials) (hc : ∀ y ∈ trials, c.Before y.time)
    (htimes : trials.Pairwise fun a b => a.time ≤ b.time) :
    trials.Pairwise fun a b =>
      a.accepted = true → b.accepted = true → a.time + c.window ≤ b.time := by
  induction trials generalizing c with
  | nil => exact List.Pairwise.nil
  | cons x rest ih =>
    obtain ⟨-, hrest⟩ := judged_cons.mp h
    obtain ⟨hfirst, hpairs⟩ := List.pairwise_cons.mp htimes
    have hnoted : ∀ y ∈ rest, (c.noted x).Before y.time := by
      intro y hy last hl
      unfold Cooldown.noted at hl
      split at hl
      · cases hl
        exact hfirst y hy
      · exact hc y (List.mem_cons_of_mem _ hy) last hl
    have hpairwise := ih hrest hnoted hpairs
    rw [Cooldown.noted_window] at hpairwise
    refine List.pairwise_cons.mpr ⟨fun y hy hx hya => ?_, hpairwise⟩
    -- the later of the two was accepted, so every accepted one before it lies a window back
    obtain ⟨between, after, rfl⟩ := List.append_of_mem hy
    have hall : Judged c ((x :: between) ++ y :: after) := h
    exact ((hall.accepted_iff hc htimes).mp hya).2.2 x (by simp) hx

end Replay

end Workflow
