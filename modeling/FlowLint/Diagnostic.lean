import FlowLint.Source
import FlowLint.Vocabulary

/-!
# Diagnostics

What a check reports about a function: a rule that is broken, where, how bad it is, and what else there is to see. Diagnostics
have a total order in which only equal ones are equal, by location first, so that a report can list them without repetition
in one way only.
-/

namespace FlowLint

/-- How bad a finding is, the mildest first. -/
inductive Severity where
  | note
  | warning
  | error
deriving DecidableEq, Repr, Inhabited

/-- The rules that are checked. -/
inductive Rule where
  | nonConstantFormat
  | wrongTypeFormatArgument
  | formatArgumentWidth
  | wrongNumberFormatArguments
  | malformedFormatString
  | ambiguousFormatDeclaration
  | unreachableStatement
  | returnStackAllocatedMemory
  | stackAddressEscape
  | malformedInput
deriving DecidableEq, Repr, Inhabited

/-- Another place that has to do with a finding. -/
structure Related where
  location : Location
  message : String
deriving DecidableEq, Repr, Inhabited

/-- A finding in a function. -/
structure Diagnostic where
  location : Location
  severity : Severity
  rule : Rule
  message : String
  function : String
  related : List Related
deriving DecidableEq, Repr, Inhabited

instance : Vocabulary Severity where
  members := [.note, .warning, .error]
  word
    | .note => "note"
    | .warning => "warning"
    | .error => "error"
  find_word a := by cases a <;> rfl

instance : Vocabulary Rule where
  members := [.nonConstantFormat, .wrongTypeFormatArgument, .formatArgumentWidth, .wrongNumberFormatArguments,
    .malformedFormatString, .ambiguousFormatDeclaration, .unreachableStatement, .returnStackAllocatedMemory,
    .stackAddressEscape, .malformedInput]
  word
    | .nonConstantFormat => "cpp/non-constant-format"
    | .wrongTypeFormatArgument => "cpp/wrong-type-format-argument"
    | .formatArgumentWidth => "cpp/format-argument-width"
    | .wrongNumberFormatArguments => "cpp/wrong-number-format-arguments"
    | .malformedFormatString => "cpp/malformed-format-string"
    | .ambiguousFormatDeclaration => "cpp/ambiguous-format-declaration"
    | .unreachableStatement => "cpp/unreachable-statement"
    | .returnStackAllocatedMemory => "cpp/return-stack-allocated-memory"
    | .stackAddressEscape => "cpp/stack-address-escape"
    | .malformedInput => "cpp/malformed-input"
  find_word a := by cases a <;> rfl

/-! ## Order -/

/-- Severities from the mildest on. -/
instance : Ord Severity where
  compare := compareOn Severity.ctorIdx

instance : Std.TransOrd Severity :=
  inferInstanceAs (Std.TransCmp (compareOn Severity.ctorIdx))

instance : Std.LawfulEqOrd Severity where
  compare_self := Std.ReflOrd.compare_self
  eq_of_compare {a b} h := by
    have h : a.ctorIdx = b.ctorIdx := Std.LawfulEqOrd.eq_of_compare h
    cases a <;> cases b <;> first | rfl | cases h

/-- Rules as they are listed. -/
instance : Ord Rule where
  compare := compareOn Rule.ctorIdx

instance : Std.TransOrd Rule :=
  inferInstanceAs (Std.TransCmp (compareOn Rule.ctorIdx))

instance : Std.LawfulEqOrd Rule where
  compare_self := Std.ReflOrd.compare_self
  eq_of_compare {a b} h := by
    have h : a.ctorIdx = b.ctorIdx := Std.LawfulEqOrd.eq_of_compare h
    cases a <;> cases b <;> first | rfl | cases h

namespace Related

/-- Related places in order of location and message. -/
instance : Ord Related where
  compare := compareLex (compareOn location) (compareOn message)

instance : Std.TransOrd Related :=
  inferInstanceAs (Std.TransCmp (compareLex (compareOn location) (compareOn message)))

instance : Std.LawfulEqOrd Related where
  compare_self := Std.ReflOrd.compare_self
  eq_of_compare {a b} h := by
    obtain ⟨h1, h2⟩ := compareLex_eq_eq.1 h
    have h1 : a.location = b.location := Std.LawfulEqOrd.eq_of_compare h1
    have h2 : a.message = b.message := Std.LawfulEqOrd.eq_of_compare h2
    cases a
    cases b
    simp_all

/-- A related place on a line of its own. -/
def render (r : Related) : String :=
  "\n    " ++ r.location.render ++ ": note: " ++ r.message

end Related

namespace Diagnostic

/-- Diagnostics in order of location, rule, message, function, severity and related places. -/
instance : Ord Diagnostic where
  compare := compareLex (compareOn location) (compareLex (compareOn rule) (compareLex (compareOn message)
    (compareLex (compareOn function) (compareLex (compareOn severity) (compareOn related)))))

instance : Std.TransOrd Diagnostic :=
  inferInstanceAs (Std.TransCmp (compareLex (compareOn location) (compareLex (compareOn rule)
    (compareLex (compareOn message) (compareLex (compareOn function) (compareLex (compareOn severity)
      (compareOn related)))))))

instance : Std.LawfulEqOrd Diagnostic where
  compare_self := Std.ReflOrd.compare_self
  eq_of_compare {a b} h := by
    obtain ⟨h1, h⟩ := compareLex_eq_eq.1 h
    obtain ⟨h2, h⟩ := compareLex_eq_eq.1 h
    obtain ⟨h3, h⟩ := compareLex_eq_eq.1 h
    obtain ⟨h4, h⟩ := compareLex_eq_eq.1 h
    obtain ⟨h5, h6⟩ := compareLex_eq_eq.1 h
    have h1 : a.location = b.location := Std.LawfulEqOrd.eq_of_compare h1
    have h2 : a.rule = b.rule := Std.LawfulEqOrd.eq_of_compare h2
    have h3 : a.message = b.message := Std.LawfulEqOrd.eq_of_compare h3
    have h4 : a.function = b.function := Std.LawfulEqOrd.eq_of_compare h4
    have h5 : a.severity = b.severity := Std.LawfulEqOrd.eq_of_compare h5
    have h6 : a.related = b.related := Std.LawfulEqOrd.eq_of_compare h6
    cases a
    cases b
    simp_all

/-- Diagnostics in order. -/
def sort (ds : List Diagnostic) : List Diagnostic :=
  ds.mergeSort fun a b => (compare a b).isLE

/-- A diagnostic as a compiler writes it, with its related places on lines below. -/
def render (d : Diagnostic) : String :=
  d.location.render ++ ": " ++ Vocabulary.word d.severity ++ ": " ++ d.message ++ " [" ++ Vocabulary.word d.rule ++ "]" ++
    String.join (d.related.map Related.render)

end Diagnostic

end FlowLint
