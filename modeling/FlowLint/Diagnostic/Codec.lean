import FlowLint.Diagnostic
import FlowLint.Source.Codec

/-!
# Diagnostics as JSON values

Related places are left out if there are none.
-/

namespace FlowLint

/-- A related place as a JSON value. -/
def Related.toJson (r : Related) : Json :=
  .object [("location", r.location.toJson), ("message", .string r.message)]

/-- A related place from a JSON value. -/
def Related.ofJson? (v : Json) : Option Related := do
  let fields ← v.fields?
  let location ← Json.required fields "location" Location.ofJson?
  let message ← Json.required fields "message" Json.string?
  some { location, message }

/-- A diagnostic as a JSON value. -/
def Diagnostic.toJson (d : Diagnostic) : Json :=
  .object ([
    ("location", d.location.toJson),
    ("severity", .ofWord d.severity),
    ("rule", .ofWord d.rule),
    ("message", .string d.message),
    ("function", .string d.function)] ++ Json.fieldUnlessEmpty "related" Related.toJson d.related)

/-- A diagnostic from a JSON value. -/
def Diagnostic.ofJson? (v : Json) : Option Diagnostic := do
  let fields ← v.fields?
  let location ← Json.required fields "location" Location.ofJson?
  let severity ← Json.required fields "severity" Json.word?
  let rule ← Json.required fields "rule" Json.word?
  let message ← Json.required fields "message" Json.string?
  let function ← Json.required fields "function" Json.string?
  let related ← Json.defaulted fields "related" [] (Json.list? Related.ofJson?)
  some { location, severity, rule, message, function, related }

end FlowLint
