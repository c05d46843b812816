import FlowLint.Flow.Liveness

/-!
# Regions of dead code

The dead statements of a block fall into segments, the longest runs without a live statement; an empty block that is not
entered counts as a segment too. Segments are linked where dead control would pass: from the end of a block to the start of a
successor, and from a jump to the start of its target, as far as the start is not entered. A region is a connected component
that carries code, and its cause is the live jump in front of its first segment that does not start its block.
-/

namespace FlowLint.Flow

/-- A run of dead statements of a block, from `start` to before `stop`. -/
structure Segment where
  block : Nat
  start : Nat
  stop : Nat
deriving DecidableEq, Repr, Inhabited

/-- Dead statements that belong together, and the live jump through which control left in front of them. -/
structure DeadRegion where
  statements : List Point
  cause : Option Point
deriving DecidableEq, Repr, Inhabited

/-- The longest runs of `false`, as where they start and where they end. -/
def deadRuns (index : Nat) : List Bool → List (Nat × Nat)
  | [] => []
  | true :: rest => deadRuns (index + 1) rest
  | false :: rest =>
    match deadRuns (index + 1) rest with
    | (start, stop) :: runs =>
      if start = index + 1 then (index, stop) :: runs else (index, index + 1) :: (start, stop) :: runs
    | [] => [(index, index + 1)]

/-- A graph and the liveness of its statements. -/
structure DeadFlow where
  graph : Graph
  live : Liveness

namespace DeadFlow

/-- The segments of a block. -/
def segmentsOf (d : DeadFlow) (b : Nat) : List Segment :=
  let count := (d.graph.statements b).length
  if count = 0 then (if d.live.isEntered b then [] else [⟨b, 0, 0⟩])
  else (deadRuns 0 ((List.range count).map fun i => d.live.isLive ⟨b, i⟩)).map fun (start, stop) => ⟨b, start, stop⟩

/-- All segments, block by block. -/
def segments (d : DeadFlow) : List Segment := (List.range d.graph.size).flatMap d.segmentsOf

/-- The segment at the start of a block, unless the block is entered. -/
def head? (d : DeadFlow) (b : Nat) : Option Segment :=
  if d.live.isEntered b then none else (d.segmentsOf b).find? fun s => s.start == 0

/-- The segment at the end of a block, unless control leaves through the end. -/
def tail? (d : DeadFlow) (b : Nat) : Option Segment :=
  if d.live.fallsThrough b then none
  else (d.segmentsOf b).find? fun s => s.stop == (d.graph.statements b).length

/-- The places of a segment. -/
def points (s : Segment) : List Point :=
  (List.range (s.stop - s.start)).map fun i => ⟨s.block, s.start + i⟩

/-- The segments that control would pass to from a segment. -/
def linksFrom (d : DeadFlow) (s : Segment) : List Segment :=
  (if d.tail? s.block = some s then (d.graph.successors s.block).filterMap d.head? else []) ++
  ((points s).filterMap d.graph.jumpTarget?).filterMap d.head?

/-- For each segment the indices of those it is linked with, one way or the other. -/
def neighbours (d : DeadFlow) (segments : List Segment) : List (List Nat) :=
  let links := segments.map fun s => (s, d.linksFrom s)
  links.map fun (s, linked) =>
    (List.range segments.length).filter fun j =>
      (links[j]?.map fun (t, back) => linked.contains t || back.contains s).getD false

/-- The indices that are connected with one, in ascending order. -/
def component (table : List (List Nat)) (i : Nat) : List Nat :=
  reached (fun j => (table[j]?).getD []) table.length i

/-- The connected components, each once, in the order of their first segments. -/
def components (d : DeadFlow) : List (List Segment) :=
  let segments := d.segments
  let table := d.neighbours segments
  (List.range segments.length).filterMap fun i =>
    let members := component table i
    if members.head? = some i then some (members.filterMap fun j => segments[j]?) else none

/-- The region of connected segments. -/
def regionOf (d : DeadFlow) (members : List Segment) : DeadRegion where
  statements := (members.flatMap points).filter fun p => ((d.graph.statement? p).map Statement.isCode).getD false
  cause := members.findSome? fun s => if 0 < s.start then d.live.precedingJump d.graph ⟨s.block, s.start⟩ else none

/-- The regions that carry code. -/
def regions (d : DeadFlow) : List DeadRegion :=
  (d.components.map d.regionOf).filter fun r => !r.statements.isEmpty

end DeadFlow

namespace Graph

/-- The regions of dead code of a graph. -/
def deadRegions (g : Graph) (live : Liveness) : List DeadRegion := DeadFlow.regions ⟨g, live⟩

/-- Whether the statement at a place is a `break`. -/
def isBreak (g : Graph) (p : Point) : Bool :=
  match (g.statement? p).bind Statement.asJump with
  | some j => j.kind = .break
  | none => false

end Graph

/-- Whether a region holds nothing but leftovers of the form `return x; break;`. -/
def DeadRegion.isOnlyBreaks (r : DeadRegion) (g : Graph) : Bool := r.statements.all g.isBreak

end FlowLint.Flow
