import FlowLint.Escape.Origin

/-!
# Origins of expressions

The origins of the pointer that an expression has as its value, and of the object that it designates, in a state. Arrays have
the address of their first element as value, references are looked through, and the pointers in an aggregate are tracked as
one. `assignedRoots` says which variables an assignment changes, and `outlives` whether its target lives on after the call.
-/

namespace FlowLint.Escape

/-- A point of the execution of a function: the function and the state. -/
structure Frame where
  function : Function
  state : State

/-- The origins of the value of an expression, and of the object it designates. -/
structure Places where
  value : Origins
  address : Origins

namespace Frame

/-- The origins tracked for a variable; they are unknown if there are none. -/
def tracked (fr : Frame) (v : VarId) : Origins := (fr.state.get? v).getD (.singleton .unknown)

/-- Whether a variable is a reference. -/
def isReference (fr : Frame) (v : VarId) : Bool :=
  ((fr.function.variableOf? v).map fun x => x.type.isReference).getD false

/-- The origins of a variable as an object. A reference designates the object it is bound to. -/
def varAddress (fr : Frame) (v : VarId) : Origins :=
  match fr.function.variableOf? v with
  | none => .singleton .unknown
  | some x =>
    if x.type.isReference then fr.tracked v
    else if x.isStackLocal then .singleton (.stack v)
    else .singleton .nowhere

/-- The origins of what is held by the object that a reference to a pointer is bound to. -/
def boundValue (fr : Frame) (v : VarId) : Origins :=
  (fr.tracked v).toList.foldl (fun s o =>
    match o with
    | .stack bound => s.union (fr.tracked bound)
    | _ => s.insert .unknown) .empty

/-- The origins of the value of a variable. -/
def varValue (fr : Frame) (v : VarId) : Origins :=
  match fr.function.variableOf? v with
  | none => .singleton .unknown
  | some x =>
    match x.type with
    | .array _ _ => fr.varAddress v
    | .reference t =>
      if t.isArray then fr.varAddress v
      else if t.isPointer then fr.boundValue v
      else .singleton .nowhere
    | _ => fr.tracked v

/-- The origins of the pointers in an aggregate. -/
def aggregateValue (fr : Frame) (base : Expr) : Origins :=
  match base.asVar with
  | some v => fr.tracked v
  | none => .singleton .unknown

/-- An array has the address of its first element as value. -/
def decay (note : Note) (value address : Origins) : Places :=
  ⟨if note.type.isArray then address else value, address⟩

/-- The origins of an expression. -/
def places (fr : Frame) : Expr → Places
  | .var n v => decay n (fr.varValue v) (fr.varAddress v)
  | .global n _ => decay n (.singleton .unknown) (.singleton .nowhere)
  | .string n _ _ => decay n (.singleton .nowhere) (.singleton .nowhere)
  | .int n _ | .float n _ | .nullptr n => decay n (.singleton .nowhere) (.singleton .unknown)
  | .addressOf n a => decay n (fr.places a).address (.singleton .unknown)
  | .deref n a => decay n (.singleton .unknown) (fr.places a).value
  | .member n a _ arrow =>
    decay n (if arrow then .singleton .unknown else fr.aggregateValue a)
      (if arrow then (fr.places a).value else (fr.places a).address)
  | .index n a _ =>
    decay n (if a.type.isArray then fr.aggregateValue a else .singleton .unknown)
      (if a.type.isArray then (fr.places a).address else (fr.places a).value)
  | .unary n op _ => decay n (.singleton (if op.isIncrement then .unknown else .nowhere)) (.singleton .unknown)
  | .binary n .comma _ b => decay n (fr.places b).value (fr.places b).address
  | .binary n _ _ _ => decay n (.singleton (if n.type.isPointer then .unknown else .nowhere)) (.singleton .unknown)
  | .cast n a => decay n (fr.places a).value (fr.places a).address
  | .conditional n _ a b =>
    decay n ((fr.places a).value.union (fr.places b).value) ((fr.places a).address.union (fr.places b).address)
  | .call n _ _ _ | .new n | .other n => decay n (.singleton .unknown) (.singleton .unknown)

/-- The origins of the pointer that an expression has as its value. -/
def value (fr : Frame) (e : Expr) : Origins := (fr.places e).value

/-- The origins of the object that an expression designates. -/
def address (fr : Frame) (e : Expr) : Origins := (fr.places e).address

/-- The variables whose origins an assignment to an expression changes, and whether they lose those they had. Writing through
a reference changes what it is bound to; writing a part of an aggregate keeps the other parts. -/
def assignedRoots (fr : Frame) : Expr → List (VarId × Bool)
  | .cast _ a => fr.assignedRoots a
  | .var _ v =>
    if fr.isReference v then
      (fr.tracked v).locals.map fun x => (x, (fr.tracked v).size == 1)
    else [(v, true)]
  | .member _ a _ false => (fr.assignedRoots a).map fun r => (r.1, false)
  | .index _ a _ => if a.type.isArray then (fr.assignedRoots a).map fun r => (r.1, false) else []
  | _ => []

/-- Whether a pointer comes from the caller or from static storage and does not point into the frame. -/
def pointsOutside (fr : Frame) (e : Expr) : Bool :=
  (match e.peel with
    | .global _ _ => true
    | .var _ v => ((fr.function.variableOf? v).map fun x => decide (x.kind = .param ∨ x.storage = .static)).getD false
    | _ => false) && (fr.value e).locals.isEmpty

/-- Whether the target of an assignment lives on after the call: a global or static variable, a parameter that is a
reference, or memory behind a pointer that comes from outside. -/
def outlives (fr : Frame) : Expr → Bool
  | .cast _ a => fr.outlives a
  | .global _ _ => true
  | .var _ v =>
    ((fr.function.variableOf? v).map fun x =>
      decide (x.storage = .static) || (decide (x.kind = .param) && x.type.isReference)).getD false
  | .deref _ a => fr.pointsOutside a
  | .member _ a _ true => fr.pointsOutside a
  | .member _ a _ false => fr.outlives a
  | .index _ a _ => if a.type.isArray then fr.outlives a else fr.pointsOutside a
  | _ => false

/-! ## Statements -/

/-- An update of the origins of a variable, which may replace those it had. -/
structure Update where
  root : VarId
  origins : Origins
  strong : Bool

/-- The updates of a declaration or an assignment. -/
def updates (fr : Frame) (s : Statement) : List Update :=
  match s.action with
  | .declare v (some init) => [⟨v, if fr.isReference v then fr.address init else fr.value init, true⟩]
  | .assign target value => (fr.assignedRoots target).map fun r => ⟨r.1, fr.value value, r.2⟩
  | _ => []

/-- The variable whose address is an argument. -/
def passedVar? (arg : Expr) : Option VarId :=
  match arg.peel with
  | .addressOf _ operand => operand.asVar
  | _ => none

/-- The variable that an increment or decrement changes. -/
def steppedVar? : Expr → Option VarId
  | .unary _ op operand => if op.isIncrement then operand.asVar else none
  | _ => none

/-- The variables that a statement changes in a way that is not known: those whose address a callee gets, and those that are
incremented or decremented. -/
def clobbered (s : Statement) : List VarId :=
  (s.calls.flatMap fun c => c.args.filterMap passedVar?) ++ s.nodes.filterMap steppedVar?

/-- The state after an update. -/
def applyUpdate (s : State) (u : Update) : State :=
  if u.strong then s.set u.root u.origins else s.extend u.root u.origins

/-- The state after a statement. -/
def transfer (f : Function) (s : State) (stmt : Statement) : State :=
  let s' := (clobbered stmt).foldl (fun s v => s.set v (.singleton .unknown)) s
  (updates ⟨f, s⟩ stmt).foldl applyUpdate s'

/-- The state at the start of a function: nothing is known of its parameters. -/
def initial (f : Function) : State :=
  f.params.foldl (fun s x => s.set x.id (.singleton .unknown)) .empty

end Frame

end FlowLint.Escape
