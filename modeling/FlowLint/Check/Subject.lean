import FlowLint.Diagnostic
import FlowLint.Snapshot.Function

/-!
# Subjects

A check looks at one function in its file. What has no known place is reported at the place of the function.
-/

namespace FlowLint.Check

/-- A function in its file. -/
structure Subject where
  file : String
  function : Function
deriving Inhabited

namespace Subject

/-- A place in the file. -/
def place (s : Subject) (span : Span) : Location := ⟨s.file, span⟩

/-- A place in the file, or that of the function if it is not known. -/
def placeOrSelf (s : Subject) (span : Span) : Location := s.place (span.orElse s.function.span)

/-- A finding in the function. -/
def finding (s : Subject) (rule : Rule) (severity : Severity) (span : Span) (message : String) (related : List Related) :
    Diagnostic where
  location := s.placeOrSelf span
  severity := severity
  rule := rule
  message := message
  function := s.function.name
  related := related

end Subject

end FlowLint.Check
