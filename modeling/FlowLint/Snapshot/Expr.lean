import FlowLint.Binary64
import FlowLint.CType
import FlowLint.Source

/-!
# Expressions

Typed expressions of function bodies. A call inside an expression carries the same data as a call that is a statement
(`CallSite`). `nodes` lists an expression and everything in it, parents first and operands in source order.
-/

namespace FlowLint

/-- The number of a variable in its function. -/
abbrev VarId := UInt32

/-- A variable number as it is written in reports. -/
def VarId.render (v : VarId) : String := "v" ++ toString v

/-- Unary operators. -/
inductive UnaryOp where
  | neg
  | not
  | bitNot
  | preInc
  | preDec
  | postInc
  | postDec
deriving DecidableEq, Repr, Inhabited

/-- Binary operators. -/
inductive BinaryOp where
  | add | sub | mul | div | rem
  | bitAnd | bitOr | bitXor | shl | shr
  | eq | ne | lt | le | gt | ge
  | and | or
  | comma
deriving DecidableEq, Repr, Inhabited

/-- What is noted at every expression: its type and its place. -/
structure Note where
  type : CType
  span : Span
deriving DecidableEq, Repr, Inhabited

/-- Expressions. The call of a function pointer has no callee. -/
inductive Expr where
  | var (note : Note) (v : VarId)
  | global (note : Note) (name : String)
  | string (note : Note) (value : String) (encoding : Encoding)
  | int (note : Note) (value : Int64)
  | float (note : Note) (value : Binary64)
  | nullptr (note : Note)
  | addressOf (note : Note) (operand : Expr)
  | deref (note : Note) (operand : Expr)
  | member (note : Note) (base : Expr) (field : String) (arrow : Bool)
  | index (note : Note) (base index : Expr)
  | unary (note : Note) (op : UnaryOp) (operand : Expr)
  | binary (note : Note) (op : BinaryOp) (lhs rhs : Expr)
  | cast (note : Note) (operand : Expr)
  | conditional (note : Note) (cond yes no : Expr)
  | call (note : Note) (callee : Option String) (args : List Expr) (site : Span)
  | new (note : Note)
  | other (note : Note)
deriving Repr, Inhabited

/-- A call: the function that is called, if it is known, its arguments and its place. -/
structure CallSite where
  callee : Option String
  args : List Expr
  span : Span
deriving Repr, Inhabited

/-- Whether an operator changes its operand. -/
def UnaryOp.isIncrement : UnaryOp → Bool
  | .preInc | .preDec | .postInc | .postDec => true
  | _ => false

namespace Expr

/-- The type and place of an expression. -/
def note : Expr → Note
  | var n _ | global n _ | string n _ _ | int n _ | float n _ | nullptr n | addressOf n _ | deref n _ | member n _ _ _
  | index n _ _ | unary n _ _ | binary n _ _ _ | cast n _ | conditional n _ _ _ | call n _ _ _ | new n | other n => n

/-- The type of an expression. -/
def type (e : Expr) : CType := e.note.type

/-- The place of an expression. -/
def span (e : Expr) : Span := e.note.span

/-- An expression without the casts around it. -/
def peel : Expr → Expr
  | .cast _ operand => operand.peel
  | e => e

/-- The variable that an expression names, through casts. -/
def asVar (e : Expr) : Option VarId :=
  match e.peel with
  | .var _ v => some v
  | _ => none

mutual

/-- An expression and everything in it, parents first. -/
def nodes : Expr → List Expr
  | e@(.addressOf _ a) | e@(.deref _ a) | e@(.unary _ _ a) | e@(.cast _ a) | e@(.member _ a _ _) => e :: a.nodes
  | e@(.index _ a b) | e@(.binary _ _ a b) => e :: (a.nodes ++ b.nodes)
  | e@(.conditional _ a b c) => e :: (a.nodes ++ b.nodes ++ c.nodes)
  | e@(.call _ _ args _) => e :: nodesOfAll args
  | e => [e]

/-- The nodes of expressions, one expression after the other. -/
def nodesOfAll : List Expr → List Expr
  | [] => []
  | e :: es => e.nodes ++ nodesOfAll es

end

/-- The call that an expression is. -/
def asCall : Expr → Option CallSite
  | .call _ callee args site => some { callee, args, span := site }
  | _ => none

/-- The calls made by an expression, outermost first. -/
def calls (e : Expr) : List CallSite := e.nodes.filterMap asCall

end Expr

end FlowLint
