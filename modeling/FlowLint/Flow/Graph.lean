import FlowLint.Flow.Closure
import FlowLint.Snapshot.Function

/-!
# Flow graphs

The basic blocks of a function as a graph. Blocks are named by their position. An arc leaves the end of a block, one for each
successor it lists, or a jump in the block. A graph is made of a function without faults: `Fault` lists what a front end may
get wrong, and `fault?` finds the first fault in the order of blocks and statements.
-/

namespace FlowLint.Flow

/-- The place of a statement: the position of its block and its index there. -/
structure Point where
  block : Nat
  index : Nat
deriving DecidableEq, Repr, Inhabited

/-- What can be wrong with a function. -/
inductive Fault where
  | noBlocks
  | duplicateBlock (b : BlockId)
  | missingEntry (b : BlockId)
  | duplicateVariable (v : VarId)
  | unknownSuccessor (b successor : BlockId)
  | noTarget (jump : JumpKind) (span : Span)
  | unknownTarget (jump : JumpKind) (span : Span) (target : BlockId)
  | undeclared (span : Span) (v : VarId)
  | dangling (span : Span) (v : VarId)
deriving DecidableEq, Repr, Inhabited

namespace Fault

/-- A fault in words. -/
def message : Fault → String
  | .noBlocks => "function has no basic blocks"
  | .duplicateBlock b => "duplicate block id " ++ b.render
  | .missingEntry b => "entry block " ++ b.render ++ " does not exist"
  | .duplicateVariable v => "duplicate variable id " ++ v.render
  | .unknownSuccessor b successor => b.render ++ " lists unknown successor " ++ successor.render
  | .noTarget jump span => jump.keyword ++ " at " ++ span.render ++ " has no target block"
  | .unknownTarget jump span target =>
    jump.keyword ++ " at " ++ span.render ++ " targets unknown block " ++ target.render
  | .undeclared span v => "declaration at " ++ span.render ++ " names unknown variable " ++ v.render
  | .dangling span v => "statement at " ++ span.render ++ " references unknown variable " ++ v.render

end Fault

/-- The first element that occurs earlier in the list. -/
def firstRepeated : List UInt32 → List UInt32 → Option UInt32
  | _, [] => none
  | seen, x :: xs => if seen.contains x then some x else firstRepeated (x :: seen) xs

/-- The position of a block. -/
def position? (f : Function) (b : BlockId) : Option Nat :=
  f.blocks.findIdx? fun x => x.id == b

/-- Whether a function has a variable of a number. -/
def hasVariable (f : Function) (v : VarId) : Bool :=
  f.vars.any fun x => x.id == v

/-- The fault of a jump: only a `return` needs no target. -/
def jumpFault? (f : Function) (j : Jump) (span : Span) : Option Fault :=
  if j.kind = .return then none
  else
    match j.target with
    | none => some (.noTarget j.kind span)
    | some target => if (position? f target).isSome then none else some (.unknownTarget j.kind span target)

/-- The variable an expression is, if the function has none of its number. -/
def danglingVar? (f : Function) : Expr → Option VarId
  | .var _ v => if hasVariable f v then none else some v
  | _ => none

/-- The fault of a statement. -/
def statementFault? (f : Function) (s : Statement) : Option Fault :=
  (match s.action with
    | .jump j => jumpFault? f j s.span
    | .declare v _ => if hasVariable f v then none else some (.undeclared s.span v)
    | _ => none) <|>
  (s.nodes.findSome? (danglingVar? f)).map (Fault.dangling s.span)

/-- The fault of a block. -/
def blockFault? (f : Function) (b : Block) : Option Fault :=
  ((b.successors.find? fun x => (position? f x).isNone).map (Fault.unknownSuccessor b.id)) <|>
  b.statements.findSome? (statementFault? f)

/-- The first fault of a function. -/
def fault? (f : Function) : Option Fault :=
  if f.blocks.isEmpty then some .noBlocks
  else
    (firstRepeated [] (f.blocks.map Block.id)).map Fault.duplicateBlock <|>
    (if (position? f f.entry).isSome then none else some (.missingEntry f.entry)) <|>
    (firstRepeated [] (f.vars.map Variable.id)).map Fault.duplicateVariable <|>
    f.blocks.findSome? (blockFault? f)

/-- A function without faults, seen as a graph of its blocks. -/
structure Graph where
  function : Function
  faultless : fault? function = none

/-- An arc: the block it leaves, the jump that makes it unless it leaves the end of the block, and the block it enters. -/
structure Arc where
  source : Nat
  jump : Option Nat
  target : Nat
deriving DecidableEq, Repr, Inhabited

namespace Graph

/-- The graph of a function, or its first fault. -/
def ofFunction (f : Function) : Except Fault Graph :=
  match h : fault? f with
  | some fault => .error fault
  | none => .ok ⟨f, h⟩

/-- The number of blocks. -/
def size (g : Graph) : Nat := g.function.blocks.length

/-- The position of the block where control starts. -/
def entry (g : Graph) : Nat := (position? g.function g.function.entry).getD 0

/-- The statements of a block. -/
def statements (g : Graph) (b : Nat) : List Statement :=
  (g.function.blocks[b]?.map Block.statements).getD []

/-- The statement at a place. -/
def statement? (g : Graph) (p : Point) : Option Statement := (g.statements p.block)[p.index]?

/-- The places of all statements, in order. -/
def points (g : Graph) : List Point :=
  (List.range g.size).flatMap fun b => (List.range (g.statements b).length).map fun i => ⟨b, i⟩

/-- The blocks that follow the end of a block, as it lists them. -/
def successors (g : Graph) (b : Nat) : List Nat :=
  ((g.function.blocks[b]?.map Block.successors).getD []).filterMap (position? g.function)

/-- The block that a statement jumps to. -/
def destination? (g : Graph) (s : Statement) : Option Nat :=
  match s.action with
  | .jump j => if j.kind = .return then none else j.target.bind (position? g.function)
  | _ => none

/-- The block that the jump at a place goes to. -/
def jumpTarget? (g : Graph) (p : Point) : Option Nat := (g.statement? p).bind g.destination?

/-- The jumps among statements that start at an index, with where they go. -/
def jumpsFrom (g : Graph) (index : Nat) : List Statement → List (Nat × Nat)
  | [] => []
  | s :: rest =>
    match g.destination? s with
    | some target => (index, target) :: g.jumpsFrom (index + 1) rest
    | none => g.jumpsFrom (index + 1) rest

/-- The arcs that leave a block: those of its end, then those of its jumps. -/
def arcsOf (g : Graph) (b : Nat) : List Arc :=
  (g.successors b).map (fun t => ⟨b, none, t⟩) ++ (g.jumpsFrom 0 (g.statements b)).map fun (i, t) => ⟨b, some i, t⟩

/-- All arcs, block by block. -/
def arcs (g : Graph) : List Arc := (List.range g.size).flatMap g.arcsOf

/-- The arcs into a block. -/
def incoming (g : Graph) (b : Nat) : List Arc := g.arcs.filter fun a => a.target == b

/-- The blocks with an arc into a block, in ascending order. -/
def predecessors (g : Graph) (b : Nat) : List Nat :=
  (List.range g.size).filter fun s => (g.arcsOf s).any fun a => a.target == b

/-- The blocks that arcs lead to from the entry, in ascending order. -/
def reachable (g : Graph) : List Nat :=
  reached (fun b => (g.arcsOf b).map Arc.target) g.size g.entry

end Graph

end FlowLint.Flow
