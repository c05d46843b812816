/-!
# Places in source files

A span is written as the line and column where it starts. Spans are ordered by start and end, locations by file and span.
A front end that knows no span gives the zero span.
-/

namespace FlowLint

/-- A stretch of a source file. -/
structure Span where
  startLine : UInt32
  startCol : UInt32
  endLine : UInt32
  endCol : UInt32
deriving DecidableEq, Repr, Inhabited

/-- A span in a file. -/
structure Location where
  file : String
  span : Span
deriving DecidableEq, Repr, Inhabited

namespace Span

/-- The span of something whose place is not known. -/
def zero : Span := ⟨0, 0, 0, 0⟩

/-- Whether the place is not known. -/
def isZero (s : Span) : Bool := s = zero

/-- The line and column where a span starts. -/
def render (s : Span) : String :=
  toString s.startLine ++ ":" ++ toString s.startCol

/-- Spans in order of start and end, line before column. -/
instance : Ord Span where
  compare := compareLex (compareOn Span.startLine) (compareLex (compareOn Span.startCol)
    (compareLex (compareOn Span.endLine) (compareOn Span.endCol)))

instance : Std.TransOrd Span :=
  inferInstanceAs (Std.TransCmp (compareLex (compareOn Span.startLine) (compareLex (compareOn Span.startCol)
    (compareLex (compareOn Span.endLine) (compareOn Span.endCol)))))

instance : Std.LawfulEqOrd Span where
  compare_self := Std.ReflOrd.compare_self
  eq_of_compare {a b} h := by
    obtain ⟨h1, h⟩ := compareLex_eq_eq.1 h
    obtain ⟨h2, h⟩ := compareLex_eq_eq.1 h
    obtain ⟨h3, h4⟩ := compareLex_eq_eq.1 h
    have h1 : a.startLine = b.startLine := Std.LawfulEqOrd.eq_of_compare h1
    have h2 : a.startCol = b.startCol := Std.LawfulEqOrd.eq_of_compare h2
    have h3 : a.endLine = b.endLine := Std.LawfulEqOrd.eq_of_compare h3
    have h4 : a.endCol = b.endCol := Std.LawfulEqOrd.eq_of_compare h4
    cases a
    cases b
    simp_all

/-- This span, or another one if this one is not known. -/
def orElse (s other : Span) : Span := if s.isZero then other else s

end Span

namespace Location

/-- The file and the start of the span. -/
def render (l : Location) : String := l.file ++ ":" ++ l.span.render

/-- Locations in order of file and span. -/
instance : Ord Location where
  compare := compareLex (compareOn Location.file) (compareOn Location.span)

instance : Std.TransOrd Location :=
  inferInstanceAs (Std.TransCmp (compareLex (compareOn Location.file) (compareOn Location.span)))

instance : Std.LawfulEqOrd Location where
  compare_self := Std.ReflOrd.compare_self
  eq_of_compare {a b} h := by
    obtain ⟨h1, h2⟩ := compareLex_eq_eq.1 h
    have h1 : a.file = b.file := Std.LawfulEqOrd.eq_of_compare h1
    have h2 : a.span = b.span := Std.LawfulEqOrd.eq_of_compare h2
    cases a
    cases b
    simp_all

end Location

end FlowLint
