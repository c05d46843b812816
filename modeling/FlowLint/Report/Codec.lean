import FlowLint.Report
import FlowLint.Diagnostic.Codec
import FlowLint.Json.Printer

/-!
# Reports as JSON values

Failures are left out if there are none.
-/

namespace FlowLint

/-- A failure as a JSON value. -/
def Failure.toJson (f : Failure) : Json :=
  .object [("file", .string f.file), ("function", .string f.function), ("reason", .string f.reason)]

/-- A failure from a JSON value. -/
def Failure.ofJson? (v : Json) : Option Failure := do
  let fields ← v.fields?
  let file ← Json.required fields "file" Json.string?
  let function ← Json.required fields "function" Json.string?
  let reason ← Json.required fields "reason" Json.string?
  some { file, function, reason }

namespace Report

/-- A number of functions. -/
def size? (v : Json) : Option Nat := v.nat? UInt64.size

/-- A report as a JSON value. -/
def toJson (r : Report) : Json :=
  .object ([
    ("diagnostics", .ofList Diagnostic.toJson r.diagnostics),
    ("functions_analyzed", .ofNat r.analyzed),
    ("functions_failed", .ofNat r.failed),
    ("functions_skipped", .ofNat r.skipped),
    ("truncated", .bool r.truncated)] ++ Json.fieldUnlessEmpty "failures" Failure.toJson r.failures)

/-- A report from a JSON value. -/
def ofJson? (v : Json) : Option Report := do
  let fields ← v.fields?
  let diagnostics ← Json.required fields "diagnostics" (Json.list? Diagnostic.ofJson?)
  let analyzed ← Json.required fields "functions_analyzed" size?
  let failed ← Json.required fields "functions_failed" size?
  let skipped ← Json.required fields "functions_skipped" size?
  let truncated ← Json.required fields "truncated" Json.bool?
  let failures ← Json.defaulted fields "failures" [] (Json.list? Failure.ofJson?)
  some { diagnostics, analyzed, failed, skipped, truncated, failures }

/-- The report as JSON text in lines. -/
def jsonText (r : Report) : String := r.toJson.lines

end Report

end FlowLint
