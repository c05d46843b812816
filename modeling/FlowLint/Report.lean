import FlowLint.Diagnostic
import FlowLint.Ordered.Set

/-!
# Reports

What a run over a program found: diagnostics in order and each once, how many functions were looked at, and why some were
not. The text lists the diagnostics and the failures and ends in a line of counts.
-/

namespace FlowLint

/-- A function that was not analyzed, and why. -/
structure Failure where
  file : String
  function : String
  reason : String
deriving DecidableEq, Repr, Inhabited

/-- The outcome of a run. It is truncated if diagnostics were cut off or functions skipped. -/
structure Report where
  diagnostics : List Diagnostic
  analyzed : Nat
  failed : Nat
  skipped : Nat
  truncated : Bool
  failures : List Failure
deriving DecidableEq, Repr, Inhabited

/-- A failure as a line of text. -/
def Failure.render (f : Failure) : String :=
  f.file ++ ": skipped '" ++ f.function ++ "': " ++ f.reason ++ "\n"

namespace Report

/-- Diagnostics in order, each once. -/
def canonical (ds : List Diagnostic) : List Diagnostic := (OrdSet.ofList ds).toList

/-- Whether there is nothing to report. -/
def isClean (r : Report) : Bool := r.diagnostics.isEmpty

/-- The number of diagnostics of a severity. -/
def count (r : Report) (s : Severity) : Nat := r.diagnostics.countP fun d => d.severity == s

/-- The worst severity that occurs. -/
def maxSeverity (r : Report) : Option Severity :=
  [Severity.error, .warning, .note].find? fun s => r.diagnostics.any fun d => d.severity == s

/-- The rules that are broken, in order, and how often. -/
def byRule (r : Report) : List (Rule × Nat) :=
  (Vocabulary.members.map fun rule => (rule, r.diagnostics.countP fun d => d.rule == rule)).filter fun e => e.2 != 0

/-- The line of counts. -/
def summary (r : Report) : String :=
  toString (r.count .error) ++ " error(s), " ++ toString (r.count .warning) ++ " warning(s), " ++
    toString (r.count .note) ++ " note(s) in " ++ toString r.analyzed ++ " function(s)" ++
    (if r.failed > 0 then ", " ++ toString r.failed ++ " failed" else "") ++
    (if r.truncated then " (truncated, " ++ toString r.skipped ++ " function(s) not analyzed)" else "") ++ "\n"

/-- The report as text. -/
def render (r : Report) : String :=
  String.join (r.diagnostics.map fun d => d.render ++ "\n") ++ String.join (r.failures.map Failure.render) ++ r.summary

end Report

end FlowLint
