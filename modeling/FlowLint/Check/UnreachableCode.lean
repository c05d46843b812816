import FlowLint.Check.Subject
import FlowLint.Flow.DeadRegion

/-!
# The unreachable code check

A region of dead code is reported once, at the first of its statements whose place is known. Regions of nothing but `break`
are passed over.
-/

namespace FlowLint.Check

open FlowLint.Flow

/-- The order in which the statements of a region are shown: those whose place is known first, then in order of the places,
then by where they stand in the graph. -/
def compareShown (g : Graph) (p q : Point) : Ordering :=
  let span (p : Point) : Span := ((g.statement? p).map Statement.span).getD .zero
  (compareLex (compareOn fun p => (span p).isZero) (compareLex (compareOn span)
    (compareLex (compareOn Point.block) (compareOn Point.index)))) p q

/-- The statement of a region that is shown. -/
def shown? (g : Graph) (r : DeadRegion) : Option Point :=
  (r.statements.mergeSort fun p q => (compareShown g p q).isLE).head?

/-- How many statements cannot be reached. -/
def unreachableMessage (count : Nat) : String :=
  if count = 1 then "This statement is unreachable"
  else "This statement and " ++ toString (count - 1) ++ " following statements are unreachable"

/-- A note on the jump through which control leaves in front of a region. -/
def causeNote (s : Subject) (g : Graph) (cause : Point) : Option Related := do
  let statement ← g.statement? cause
  let jump ← statement.asJump
  some ⟨s.place statement.span, "control always leaves through this '" ++ jump.kind.keyword ++ "'"⟩

/-- The finding for a region. -/
def regionFinding? (s : Subject) (g : Graph) (r : DeadRegion) : Option Diagnostic := do
  let p ← shown? g r
  let first ← g.statement? p
  some (s.finding .unreachableStatement .warning first.span (unreachableMessage r.statements.length)
    (r.cause.bind (causeNote s g)).toList)

/-- The dead code of a function. -/
def unreachableFindings (s : Subject) (g : Graph) : List Diagnostic :=
  ((g.deadRegions g.liveness).filter fun r => !r.isOnlyBreaks g).filterMap (regionFinding? s g)

end FlowLint.Check
