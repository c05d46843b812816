import FlowLint.Flow.Graph

/-!
# Liveness of statements

A statement is live if control can arrive at it. Control starts at the entry and at every `case` and `default` label. It
passes from statement to statement; a live jump hands it to its target, where a `goto` revives its label if the block holds
it and all other jumps enter the block at its start; a live end of a block enters the successors. Blocks are scanned in turn,
and scanned again when their start becomes entered or a label that a `goto` into them names becomes revived.
-/

namespace FlowLint.Flow

/-- What is known while blocks are scanned: the blocks that are entered at their start, the names of the labels that are
revived, and the blocks that wait to be scanned. -/
structure Marks where
  entered : List Nat
  revived : List String
  pending : List Nat
deriving Repr

/-- What is known of the statements of a block while it is scanned: which ones are live, in order, and whether control
arrives behind the last one. -/
structure Scan where
  row : List Bool
  here : Bool
  marks : Marks
deriving Repr

/-- What is known between two scans: the marks, and for each block which of its statements were found live and whether control
was found to leave through its end. -/
structure Survey where
  marks : Marks
  rows : List (List Bool)
  leaves : List Bool
deriving Repr

/-- Which statements are live, which blocks are entered at their start, and which are left at their end. -/
structure Liveness where
  rows : List (List Bool)
  entered : List Nat
  leaves : List Bool
deriving Repr

/-- The liveness as far as it is known. -/
def Survey.liveness (s : Survey) : Liveness := ⟨s.rows, s.marks.entered, s.leaves⟩

namespace Marks

/-- The start of a block is entered. -/
def enter (m : Marks) (b : Nat) : Marks :=
  if m.entered.contains b then m
  else { m with entered := b :: m.entered, pending := m.pending ++ [b] }

/-- A label of a block is revived. -/
def revive (m : Marks) (name : String) (b : Nat) : Marks :=
  if m.revived.contains name then m
  else { m with revived := name :: m.revived, pending := m.pending ++ [b] }

end Marks

/-- Whether a statement is a label for `goto` of a name. -/
def isUserLabel (name : String) (s : Statement) : Bool :=
  match s.action with
  | .label n .user => n == name
  | _ => false

/-- Whether a statement is a label of a `switch`. -/
def isSwitchLabel (s : Statement) : Bool :=
  match s.action with
  | .label _ .case | .label _ .default => true
  | _ => false

namespace Graph

/-- The label that a `goto` names, if its target block holds it. -/
def landing? (g : Graph) (s : Statement) (target : Nat) : Option String :=
  match s.action with
  | .jump j =>
    if j.kind = .goto then j.label.filter fun name => (g.statements target).any (isUserLabel name) else none
  | _ => none

/-- Control is handed over by a jump. -/
def follow (g : Graph) (s : Statement) (m : Marks) : Marks :=
  match g.destination? s with
  | none => m
  | some target =>
    match g.landing? s target with
    | some name => m.revive name target
    | none => m.enter target

/-- Whether control arrives at a statement: it comes from the one before, or the statement is a label where it starts anew. -/
def arrives (sc : Scan) (s : Statement) : Bool :=
  match s.action with
  | .label name .user => sc.here || sc.marks.revived.contains name
  | .label _ _ => true
  | _ => sc.here

/-- One statement is scanned. -/
def scanStep (g : Graph) (sc : Scan) (s : Statement) : Scan :=
  let live := arrives sc s
  if live && s.asJump.isSome then { row := sc.row ++ [true], here := false, marks := g.follow s sc.marks }
  else { sc with row := sc.row ++ [live], here := live }

/-- A block is scanned. -/
def scan (g : Graph) (m : Marks) (b : Nat) : Scan :=
  let sc := (g.statements b).foldl g.scanStep ⟨[], m.entered.contains b, m⟩
  if sc.here then { sc with marks := (g.successors b).foldl Marks.enter sc.marks } else sc

/-- The block that waits longest is scanned. -/
def advance (g : Graph) (s : Survey) : Survey :=
  match s.marks.pending with
  | [] => s
  | b :: rest =>
    let sc := g.scan { s.marks with pending := rest } b
    ⟨sc.marks, s.rows.set b sc.row, s.leaves.set b sc.here⟩

/-- Blocks are scanned until none is waiting, at most `fuel` times. -/
def settle (g : Graph) (fuel : Nat) (s : Survey) : Survey :=
  match fuel with
  | 0 => s
  | fuel + 1 => g.settle fuel (g.advance s)

/-- The blocks with a label of a `switch`. -/
def switchTargets (g : Graph) : List Nat :=
  (List.range g.size).filter fun b => (g.statements b).any isSwitchLabel

/-- The number of labels. -/
def labelCount (g : Graph) : Nat :=
  (g.function.statements.filter fun s => !s.isCode).length

/-- Before the first scan: the entry is entered, and it waits with the blocks that have labels of a `switch`. -/
def unscanned (g : Graph) : Survey where
  marks := ⟨[g.entry], [], g.entry :: g.switchTargets⟩
  rows := (List.range g.size).map fun b => (g.statements b).map fun _ => false
  leaves := (List.range g.size).map fun _ => false

/-- A bound on the number of scans. Each scan but the first ones of the entry and the blocks with labels of a `switch` follows a
block that becomes entered or a label that becomes revived. -/
def scanBound (g : Graph) : Nat := 2 * g.size + g.labelCount

/-- What is known when no block waits any more. -/
def survey (g : Graph) : Survey := g.settle g.scanBound g.unscanned

/-- The liveness of the statements of a graph. -/
def liveness (g : Graph) : Liveness := g.survey.liveness

end Graph

namespace Liveness

/-- Whether the statement at a place is live. -/
def isLive (l : Liveness) (p : Point) : Bool :=
  ((l.rows[p.block]?).bind fun row => row[p.index]?).getD false

/-- Whether control arrives at the start of a block. -/
def isEntered (l : Liveness) (b : Nat) : Bool := l.entered.contains b

/-- Whether control leaves a block through its end. -/
def fallsThrough (l : Liveness) (b : Nat) : Bool := (l.leaves[b]?).getD false

/-- Whether control arrives anywhere in a block. -/
def isReached (l : Liveness) (b : Nat) : Bool :=
  l.isEntered b || ((l.rows[b]?).getD []).any id

/-- The dead statements that carry code, in order. -/
def deadCode (l : Liveness) (g : Graph) : List Point :=
  g.points.filter fun p => !l.isLive p && ((g.statement? p).map Statement.isCode).getD false

/-- Whether the statement at a place is a live jump. -/
def isLiveJump (l : Liveness) (g : Graph) (p : Point) : Bool :=
  l.isLive p && (((g.statement? p).bind Statement.asJump).isSome)

/-- The nearest live jump in front of a place in its block. -/
def precedingJump (l : Liveness) (g : Graph) (p : Point) : Option Point :=
  ((List.range p.index).reverse.map fun i => ⟨p.block, i⟩).find? (l.isLiveJump g)

end Liveness

end FlowLint.Flow
