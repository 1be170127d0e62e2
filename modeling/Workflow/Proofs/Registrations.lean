import Workflow.Manager.Refresh

/- What a pass over the documents registers. The triggers that are declared get the
   numbers behind those of all triggers so far, and each webhook stands on its path
   behind those of its path before it (`install_routed`). -/
namespace Workflow.Manager

/-- The triggers on a path, in the order in which they were registered. -/
def routed (m : Manager) (path : String) : List Nat := (Table.get? m.routes path).getD []

/-- Whether a trigger is a webhook on a path. -/
def onPath (path : String) (d : TriggerDefinition × Nat) : Bool :=
  match d.1.spec with
  | .webhook hook => hook.path == path
  | _ => false

theorem routed_addRoute (routes : Table (List Nat)) (d : TriggerDefinition × Nat)
    (path : String) :
    (Table.get? (addRoute routes d) path).getD [] =
      (Table.get? routes path).getD [] ++ if onPath path d then [d.2] else [] := by
  unfold addRoute onPath
  cases d.1.spec with
  | webhook hook =>
    simp only [Table.get?_insert, beq_iff_eq]
    by_cases hpath : hook.path = path
    · simp [hpath]
    · simp [hpath]
  | cron interval => simp
  | watch watch => simp

theorem routed_addRoutes (routes : Table (List Nat)) (ds : List (TriggerDefinition × Nat))
    (path : String) :
    (Table.get? (ds.foldl addRoute routes) path).getD [] =
      (Table.get? routes path).getD [] ++ (ds.filter (onPath path)).map (·.2) := by
  induction ds generalizing routes with
  | nil => simp
  | cons d rest ih =>
    rw [List.foldl_cons, ih, routed_addRoute, List.append_assoc, List.filter_cons]
    cases onPath path d <;> simp

/-- The timers of new triggers change nothing but the alarms. -/
theorem startTimers_frame (now : Nat) (ds : List (TriggerDefinition × Nat)) (m : Manager) :
    ds.foldl (startTimer now) m = { m with alarms := (ds.foldl (startTimer now) m).alarms } := by
  induction ds generalizing m with
  | nil => rfl
  | cons d rest ih =>
    have hone : startTimer now m d = { m with alarms := (startTimer now m d).alarms } := by
      unfold startTimer setTick
      cases d.1.spec <;> rfl
    rw [List.foldl_cons, hone]
    exact ih _

theorem install_routed (m : Manager) (now : Nat) (found : List TriggerDefinition)
    (path : String) :
    (m.install now found).routed path =
      m.routed path ++ ((found.zipIdx m.triggers.length).filter (onPath path)).map (·.2) := by
  unfold install
  rw [startTimers_frame]
  exact routed_addRoutes ..

end Workflow.Manager
