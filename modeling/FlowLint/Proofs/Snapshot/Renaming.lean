import Mathlib.Data.List.Basic
import FlowLint.Proofs.Snapshot.Expr

/-!
# Renamed variables

An expression and a statement with other variables in place of those they mention. Renaming keeps types, and it is seen in the nodes
of an expression and in the calls of a statement one by one (`Expr.nodes_rename`, `Statement.calls_rename`). What a statement declares
is no mention of a variable and stays.
-/

namespace FlowLint

namespace Expr

mutual

/-- An expression with other variables. -/
def rename (m : VarId → VarId) : Expr → Expr
  | .var n v => .var n (m v)
  | .addressOf n a => .addressOf n (a.rename m)
  | .deref n a => .deref n (a.rename m)
  | .member n a field arrow => .member n (a.rename m) field arrow
  | .index n a b => .index n (a.rename m) (b.rename m)
  | .unary n op a => .unary n op (a.rename m)
  | .binary n op a b => .binary n op (a.rename m) (b.rename m)
  | .cast n a => .cast n (a.rename m)
  | .conditional n a b c => .conditional n (a.rename m) (b.rename m) (c.rename m)
  | .call n callee args site => .call n callee (renameAll m args) site
  | .global n name => .global n name
  | .string n value encoding => .string n value encoding
  | .int n value => .int n value
  | .float n value => .float n value
  | .nullptr n => .nullptr n
  | .new n => .new n
  | .other n => .other n

/-- Expressions with other variables. -/
def renameAll (m : VarId → VarId) : List Expr → List Expr
  | [] => []
  | e :: es => e.rename m :: renameAll m es

end

variable {m : VarId → VarId}

theorem renameAll_eq (es : List Expr) : renameAll m es = es.map (rename m) := by
  induction es with
  | nil => rfl
  | cons e es ih => rw [renameAll, ih, List.map_cons]

/-- Renaming keeps types and places. -/
theorem note_rename (e : Expr) : (e.rename m).note = e.note := by
  cases e <;> rfl

theorem type_rename (e : Expr) : (e.rename m).type = e.type := congrArg Note.type (note_rename e)

/-- Renaming keeps casts. -/
theorem peel_rename : ∀ e : Expr, (e.rename m).peel = e.peel.rename m
  | .cast _ a => peel_rename a
  | .var _ _ | .global _ _ | .string _ _ _ | .int _ _ | .float _ _ | .nullptr _ | .addressOf _ _ | .deref _ _ | .member _ _ _ _
  | .index _ _ _ | .unary _ _ _ | .binary _ _ _ _ | .conditional _ _ _ _ | .call _ _ _ _ | .new _ | .other _ => rfl

/-- A renamed expression names the renamed variable. -/
theorem asVar_rename (e : Expr) : (e.rename m).asVar = e.asVar.map m := by
  unfold asVar
  rw [peel_rename]
  cases e.peel <;> rfl

theorem operands_rename (e : Expr) : (e.rename m).operands = e.operands.map (rename m) := by
  cases e <;> simp [rename, operands, renameAll_eq]

/-- The nodes of a renamed expression are the renamed nodes. -/
theorem nodes_rename (e : Expr) : (e.rename m).nodes = e.nodes.map (rename m) := by
  rw [nodes_eq, nodes_eq e, operands_rename, List.map_cons, List.flatMap_map, List.map_flatMap]
  refine congrArg _ (List.flatMap_congr fun a ha => ?_)
  have := sizeOf_lt_of_mem_operands ha
  exact nodes_rename a
termination_by sizeOf e

end Expr

/-- A call with other variables. -/
def CallSite.rename (m : VarId → VarId) (c : CallSite) : CallSite := { c with args := c.args.map (Expr.rename m) }

/-- What a statement does, with other variables in its expressions. -/
def Action.rename (m : VarId → VarId) : Action → Action
  | .call site => .call (site.rename m)
  | .jump j => .jump { j with value := j.value.map (Expr.rename m) }
  | .assign target value => .assign (target.rename m) (value.rename m)
  | .declare v init => .declare v (init.map (Expr.rename m))
  | .eval e => .eval (e.rename m)
  | .label name kind => .label name kind
  | .empty => .empty
  | .other => .other

/-- A statement with other variables in its expressions. -/
def Statement.rename (m : VarId → VarId) (s : Statement) : Statement := { s with action := s.action.rename m }

namespace Statement

variable {m : VarId → VarId}

theorem exprs_rename (s : Statement) : (s.rename m).exprs = s.exprs.map (Expr.rename m) := by
  obtain ⟨action, span⟩ := s
  cases action with
  | jump j => cases hj : j.value <;> simp [rename, Action.rename, exprs, hj]
  | declare v init => cases init <;> rfl
  | call _ | assign _ _ | label _ _ | eval _ | empty | other => rfl

/-- The nodes of a renamed statement are the renamed nodes. -/
theorem nodes_rename (s : Statement) : (s.rename m).nodes = s.nodes.map (Expr.rename m) := by
  unfold nodes
  rw [exprs_rename, Expr.nodesOfAll_eq, Expr.nodesOfAll_eq, List.flatMap_map, List.map_flatMap]
  exact List.flatMap_congr fun e _ => Expr.nodes_rename e

theorem asCall_rename (e : Expr) : (e.rename m).asCall = e.asCall.map (CallSite.rename m) := by
  cases e with
  | call n callee args site => simp [Expr.rename, Expr.asCall, CallSite.rename, Expr.renameAll_eq]
  | _ => rfl

/-- A renamed statement makes the renamed calls. -/
theorem calls_rename (s : Statement) : (s.rename m).calls = s.calls.map (CallSite.rename m) := by
  have hnodes : (s.nodes.map (Expr.rename m)).filterMap Expr.asCall = (s.nodes.filterMap Expr.asCall).map (CallSite.rename m) := by
    rw [List.filterMap_map, List.map_filterMap]
    exact List.filterMap_congr fun e _ => asCall_rename e
  unfold calls
  rw [nodes_rename, hnodes, List.map_append]
  obtain ⟨action, span⟩ := s
  cases action <;> rfl

end Statement

end FlowLint
