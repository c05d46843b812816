import FlowLint.Source
import FlowLint.Json

/-!
# Places as JSON values
-/

namespace FlowLint

/-- A span as a JSON value. -/
def Span.toJson (s : Span) : Json :=
  .object [
    ("start_line", .ofNat s.startLine.toNat),
    ("start_col", .ofNat s.startCol.toNat),
    ("end_line", .ofNat s.endLine.toNat),
    ("end_col", .ofNat s.endCol.toNat)]

/-- A span from a JSON value. -/
def Span.ofJson? (v : Json) : Option Span := do
  let fields ← v.fields?
  let startLine ← Json.required fields "start_line" Json.uint32?
  let startCol ← Json.required fields "start_col" Json.uint32?
  let endLine ← Json.required fields "end_line" Json.uint32?
  let endCol ← Json.required fields "end_col" Json.uint32?
  some { startLine, startCol, endLine, endCol }

/-- A location as a JSON value. -/
def Location.toJson (l : Location) : Json :=
  .object [("file", .string l.file), ("span", l.span.toJson)]

/-- A location from a JSON value. -/
def Location.ofJson? (v : Json) : Option Location := do
  let fields ← v.fields?
  let file ← Json.required fields "file" Json.string?
  let span ← Json.required fields "span" Span.ofJson?
  some { file, span }

end FlowLint
