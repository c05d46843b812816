import FlowLint.Check.FormatString
import FlowLint.Check.StackEscape
import FlowLint.Check.UnreachableCode
import FlowLint.Report
import FlowLint.Settings

/-!
# Analysis of a program

The functions of a program are analyzed one after the other, in the order of the units. The formatters are those of the whole
program. A unit that names a target has its format strings checked for that target, by a check that is otherwise the one for all
others. A function with a fault is reported as a failure and does not stop the run; a run stops as soon as it has found as many
diagnostics as its cap, repetitions included.
-/

namespace FlowLint

/-- A function and the unit it is defined in. -/
structure Task where
  unit : SourceUnit
  function : Function
deriving Inhabited

/-- What comes of a function. -/
inductive Outcome where
  | analyzed (findings : List Diagnostic)
  | failed (finding : Diagnostic) (failure : Failure)
  | skipped
deriving DecidableEq, Repr, Inhabited

namespace Outcome

/-- The diagnostics of an outcome. -/
def findings : Outcome → List Diagnostic
  | .analyzed findings => findings
  | .failed finding _ => [finding]
  | .skipped => []

/-- The failure of an outcome. -/
def failure? : Outcome → Option Failure
  | .failed _ failure => some failure
  | _ => none

/-- Whether the function was analyzed. -/
def isAnalyzed : Outcome → Bool
  | .analyzed _ => true
  | _ => false

/-- Whether the function was not looked at. -/
def isSkipped : Outcome → Bool
  | .skipped => true
  | _ => false

end Outcome

/-- The functions of a program. -/
def tasks (units : List SourceUnit) : List Task :=
  units.flatMap fun u => u.functions.map fun f => ⟨u, f⟩

/-! ## Checks -/

/-- The checks of a run: that of format strings with what units for other targets need, and those that look at the flow of
control. -/
structure Checks where
  format : Option Check.FormatCheck
  retargeted : OrdMap Preset Check.FormatCheck
  flow : List (Check.Subject → Flow.Graph → List Diagnostic)

namespace Checks

/-- Format checks for targets and one for one more target, if there is none yet. -/
def retarget (format : Check.FormatCheck) (checks : OrdMap Preset Check.FormatCheck) (p : Preset) :
    OrdMap Preset Check.FormatCheck :=
  checks.alter p fun k => k.getD { format with target := (Settings.ofPreset p).target }

/-- The checks that the settings ask for, over units. -/
def ofSettings (s : Settings) (r : Format.Registry) (units : List SourceUnit) : Checks :=
  let format : Option Check.FormatCheck :=
    if s.formatChecks then some ⟨r, s.target, s.ambiguity.severity, s.checkWidths⟩ else none
  { format
    retargeted := (format.map fun format => (units.filterMap SourceUnit.target).foldl (retarget format) .empty).getD .empty
    flow := (if s.unreachableCode then [Check.unreachableFindings] else []) ++
      if s.stackEscape then [fun subject g => Check.escapeFindings subject g s.maxIterations.toNat] else [] }

/-- The format check for the units of a target. -/
def formatFor (c : Checks) (target : Option Preset) : Option Check.FormatCheck :=
  target.bind c.retargeted.get? <|> c.format

/-- What the checks find in a function of a unit. -/
def findings (c : Checks) (u : SourceUnit) (g : Flow.Graph) : List Diagnostic :=
  let subject : Check.Subject := ⟨u.file, g.function⟩
  ((c.formatFor u.target).map fun format => format.findings subject).getD [] ++ c.flow.flatMap fun check => check subject g

end Checks

/-! ## One function -/

/-- A fault of a function in words. -/
def faultMessage (f : Function) (fault : Flow.Fault) : String :=
  "Malformed input in '" ++ f.name ++ "': " ++ fault.message

/-- The outcome for a function with a fault. -/
def faultOutcome (t : Task) (fault : Flow.Fault) : Outcome :=
  .failed
    { location := ⟨t.unit.file, t.function.span⟩
      severity := .warning
      rule := .malformedInput
      message := "Function '" ++ t.function.name ++ "' was not analyzed: " ++ fault.message
      function := t.function.name
      related := [] }
    ⟨t.unit.file, t.function.name, faultMessage t.function fault⟩

/-- The outcome for a function. -/
def analyzeTask (c : Checks) (t : Task) : Outcome :=
  match Flow.Graph.ofFunction t.function with
  | .ok g => .analyzed (c.findings t.unit g)
  | .error fault => faultOutcome t fault

/-! ## All functions -/

/-- Whether so many diagnostics are as many as a cap. -/
def capReached (cap : Option Nat) (count : Nat) : Bool :=
  match cap with
  | none => false
  | some cap => cap ≤ count

/-- The outcomes for functions when `count` diagnostics have been found before. The cap is looked at behind each function. -/
def outcomesFrom (analyze : Task → Outcome) (cap : Option Nat) (count : Nat) : List Task → List Outcome
  | [] => []
  | t :: ts =>
    let outcome := analyze t
    let count := count + outcome.findings.length
    outcome :: if capReached cap count then ts.map fun _ => .skipped else outcomesFrom analyze cap count ts

/-- Failures in order of file and function; those of one function stay as they are. -/
def failureLog (failures : List Failure) : List Failure :=
  failures.mergeSort fun a b => (compareLex (compareOn Failure.file) (compareOn Failure.function) a b).isLE

namespace Report

/-- The report on outcomes. -/
def ofOutcomes (cap : Option Nat) (outcomes : List Outcome) : Report :=
  let found := canonical (outcomes.flatMap Outcome.findings)
  let skipped := outcomes.countP Outcome.isSkipped
  { diagnostics := (cap.map found.take).getD found
    analyzed := outcomes.countP Outcome.isAnalyzed
    failed := outcomes.countP fun o => o.failure?.isSome
    skipped := skipped
    truncated := (cap.map fun cap => decide (cap < found.length)).getD false || decide (0 < skipped)
    failures := failureLog (outcomes.filterMap Outcome.failure?) }

end Report

/-- The cap of a run. -/
def Settings.cap (s : Settings) : Option Nat := s.diagnosticCap.map UInt64.toNat

/-- What comes of the functions of a program. -/
def outcomes (s : Settings.Valid) (units : List SourceUnit) : List Outcome :=
  outcomesFrom (analyzeTask (.ofSettings s.val (.ofUnits units) units)) s.val.cap 0 (tasks units)

/-- The report on a program. -/
def analyze (s : Settings.Valid) (units : List SourceUnit) : Report := .ofOutcomes s.val.cap (outcomes s units)

end FlowLint
