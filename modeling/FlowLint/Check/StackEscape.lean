import FlowLint.Check.Subject
import FlowLint.Escape.Analysis

/-!
# The stack escape check

An address of a local variable must not be returned, nor be stored where it outlives the call.
-/

namespace FlowLint.Check

open FlowLint.Escape

/-- The rule that a leak breaks, and how bad that is. -/
def leakRule : Sink → Rule × Severity
  | .returned _ _ => (.returnStackAllocatedMemory, .error)
  | .stored _ _ => (.stackAddressEscape, .warning)

/-- A leak of a variable in words. -/
def leakMessage (name : String) : Sink → String
  | .returned _ reference =>
    "May return a " ++ (if reference then "reference" else "pointer") ++ " to stack-allocated variable '" ++ name ++ "'"
  | .stored target _ =>
    "Address of stack-allocated variable '" ++ name ++ "' is stored in '" ++ target ++ "', which outlives the function"

/-- The finding for a leak. -/
def leakFinding (s : Subject) (l : Leak) : Diagnostic :=
  let object := s.function.variableOf? l.object
  let carrier := l.via.bind s.function.variableOf?
  s.finding (leakRule l.sink).1 (leakRule l.sink).2 l.sink.span
    (leakMessage ((object.map Variable.name).getD "<local>") l.sink)
    ((object.map fun x => ⟨s.place x.span, "'" ++ x.name ++ "' is declared here"⟩).toList ++
      (carrier.map fun x => ⟨s.place x.span, "the address is carried by '" ++ x.name ++ "'"⟩).toList)

/-- The leaks of a function that an analysis of at most `cap` sweeps finds. -/
def escapeFindings (s : Subject) (g : Flow.Graph) (cap : Nat) : List Diagnostic :=
  let d := Dataflow.ofGraph g
  (d.leaks (d.run cap)).toList.map (leakFinding s)

end FlowLint.Check
