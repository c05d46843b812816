import FlowLint.Snapshot.Expr

/-!
# Statements

The statements of a basic block. Labels and empty statements carry no code of their own.
-/

namespace FlowLint

/-- The number of a basic block in its function. -/
abbrev BlockId := UInt32

/-- A block number as it is written in reports. -/
def BlockId.render (b : BlockId) : String := "bb" ++ toString b

/-- Labels for `goto`, and the labels of a `switch`. -/
inductive LabelKind where
  | user
  | case
  | default
deriving DecidableEq, Repr, Inhabited

/-- Jumps. -/
inductive JumpKind where
  | goto
  | break
  | continue
  | return
deriving DecidableEq, Repr, Inhabited

/-- A jump: the block it goes to, the label that a `goto` names, and the value that is returned. -/
structure Jump where
  kind : JumpKind
  target : Option BlockId
  label : Option String
  value : Option Expr
deriving Repr, Inhabited

/-- What a statement does. -/
inductive Action where
  | call (site : CallSite)
  | jump (j : Jump)
  | assign (target value : Expr)
  | declare (v : VarId) (init : Option Expr)
  | label (name : String) (kind : LabelKind)
  | eval (e : Expr)
  | empty
  | other
deriving Repr, Inhabited

/-- A statement and its place. -/
structure Statement where
  action : Action
  span : Span
deriving Repr, Inhabited

/-- The keyword of a jump. -/
def JumpKind.keyword : JumpKind → String
  | .goto => "goto"
  | .break => "break"
  | .continue => "continue"
  | .return => "return"

namespace Statement

/-- The expressions of a statement that are not part of another one. -/
def exprs (s : Statement) : List Expr :=
  match s.action with
  | .call site => site.args
  | .jump j => j.value.toList
  | .assign target value => [target, value]
  | .declare _ init => init.toList
  | .eval e => [e]
  | .label _ _ | .empty | .other => []

/-- The expressions of a statement and everything in them. -/
def nodes (s : Statement) : List Expr := Expr.nodesOfAll s.exprs

/-- The calls made by a statement, outermost first. -/
def calls (s : Statement) : List CallSite :=
  (match s.action with
    | .call site => [site]
    | _ => []) ++ s.nodes.filterMap Expr.asCall

/-- The jump that a statement is. -/
def asJump (s : Statement) : Option Jump :=
  match s.action with
  | .jump j => some j
  | _ => none

/-- Whether a statement carries code. -/
def isCode (s : Statement) : Bool :=
  match s.action with
  | .label _ _ | .empty => false
  | _ => true

end Statement

end FlowLint
