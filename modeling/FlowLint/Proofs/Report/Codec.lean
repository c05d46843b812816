import FlowLint.Report.Codec
import FlowLint.Proofs.Json.Text
import FlowLint.Proofs.Snapshot.Codec

/-!
# Reports that are read back

A report is read back from its JSON text (`Report.jsonText_readsBack`): its value is read back from the text that is written for it,
and the report from the value, field by field, whether or not there are related places and failures. Its counts have to fit into
64 bits.
-/

namespace FlowLint

open Json

/-! ## Values that are read back -/

@[simp] theorem Location.ofJson?_toJson (l : Location) : Location.ofJson? l.toJson = some l := by
  simp [Location.ofJson?, Location.toJson, Option.bind_eq_some_iff, -Option.bind_some]

@[simp] theorem Related.ofJson?_toJson (r : Related) : Related.ofJson? r.toJson = some r := by
  simp [Related.ofJson?, Related.toJson, Option.bind_eq_some_iff, -Option.bind_some]

@[simp] theorem Diagnostic.ofJson?_toJson (d : Diagnostic) : Diagnostic.ofJson? d.toJson = some d := by
  have hrelated : defaulted (fieldUnlessEmpty "related" Related.toJson d.related) "related" [] (list? Related.ofJson?) =
      some d.related :=
    defaulted_fieldUnlessEmpty fun r _ => r.ofJson?_toJson
  simp [Diagnostic.ofJson?, Diagnostic.toJson, word?, hrelated]

@[simp] theorem Failure.ofJson?_toJson (f : Failure) : Failure.ofJson? f.toJson = some f := by
  simp [Failure.ofJson?, Failure.toJson]

/-- A report with counts of 64 bits is read back from the value that is written for it. -/
theorem Report.ofJson?_toJson {r : Report} (hanalyzed : r.analyzed < UInt64.size) (hfailed : r.failed < UInt64.size)
    (hskipped : r.skipped < UInt64.size) : Report.ofJson? r.toJson = some r := by
  have hdiagnostics : list? Diagnostic.ofJson? (ofList Diagnostic.toJson r.diagnostics) = some r.diagnostics :=
    list?_ofList fun d _ => d.ofJson?_toJson
  have hfailures : defaulted (fieldUnlessEmpty "failures" Failure.toJson r.failures) "failures" [] (list? Failure.ofJson?) =
      some r.failures :=
    defaulted_fieldUnlessEmpty fun f _ => f.ofJson?_toJson
  simp [Report.ofJson?, Report.toJson, size?, hdiagnostics, hfailures, nat?_ofNat hanalyzed, nat?_ofNat hfailed,
    nat?_ofNat hskipped]

/-! ## Values that are plain -/

variable {n : Nat}

theorem Span.plain_toJson (s : Span) : Plain (n + 1) s.toJson := by
  have hword (w : UInt32) : Plain n (ofNat w.toNat) := .ofNat (w.toNat_lt.trans (by decide))
  exact .object (by simp [hword])

theorem Location.plain_toJson (l : Location) : Plain (n + 2) l.toJson :=
  .object (by simp [Plain.string, l.span.plain_toJson])

theorem Related.plain_toJson (r : Related) : Plain (n + 3) r.toJson :=
  .object (by simp [Plain.string, r.location.plain_toJson])

theorem Diagnostic.plain_toJson (d : Diagnostic) : Plain (n + 5) d.toJson := by
  have hlocation : Plain (n + 4) d.location.toJson := d.location.plain_toJson
  have hrelated : ∀ f ∈ fieldUnlessEmpty "related" Related.toJson d.related, Plain (n + 4) f.2 :=
    Plain.fieldUnlessEmpty fun r _ => r.plain_toJson
  exact .object (List.forall_mem_append.2 ⟨by simp [hlocation, Plain.string, Plain.ofWord], hrelated⟩)

theorem Failure.plain_toJson (f : Failure) : Plain (n + 1) f.toJson :=
  .object (by simp [Plain.string])

theorem Report.plain_toJson {r : Report} (hanalyzed : r.analyzed < UInt64.size) (hfailed : r.failed < UInt64.size)
    (hskipped : r.skipped < UInt64.size) : Plain (n + 7) r.toJson := by
  have hdiagnostics : Plain (n + 6) (ofList Diagnostic.toJson r.diagnostics) := .ofList fun d _ => d.plain_toJson
  have hfailures : ∀ f ∈ fieldUnlessEmpty "failures" Failure.toJson r.failures, Plain (n + 6) f.2 :=
    Plain.fieldUnlessEmpty fun f _ => f.plain_toJson
  have hcount {m : Nat} (h : m < UInt64.size) : Plain (n + 6) (ofNat m) := .ofNat h
  refine .object (List.forall_mem_append.2 ⟨?_, hfailures⟩)
  simp [hdiagnostics, hcount hanalyzed, hcount hfailed, hcount hskipped, Plain.bool]

/-! ## The text -/

/-- A report is read back from its JSON text if its counts fit into 64 bits: whatever its strings hold, and whether or not it has
failures and its diagnostics related places. -/
theorem Report.jsonText_readsBack (r : Report) (hanalyzed : r.analyzed < UInt64.size) (hfailed : r.failed < UInt64.size)
    (hskipped : r.skipped < UInt64.size) : (read? r.jsonText).bind Report.ofJson? = some r := by
  have hread : read? r.jsonText = some r.toJson :=
    read?_lines (Report.plain_toJson (n := 0) hanalyzed hfailed hskipped) (by decide)
  rw [hread, Option.bind_some, Report.ofJson?_toJson hanalyzed hfailed hskipped]

/-- A report with the largest count there is, and with a quote, a backslash, control characters and characters beyond ASCII in its
strings: one diagnostic with a related place, one without, and a failure. -/
def quotedReport : Report :=
  let place : Location := ⟨"a \"b\"\\c.c", ⟨1, 2, 4294967295, 0⟩⟩
  { diagnostics := [⟨place, .error, .nonConstantFormat, "tab\tbell\x07 end\r\n", "größe", [⟨place, "日本 \x00 𝄞"⟩]⟩,
      ⟨place, .note, .malformedInput, "", "", []⟩]
    analyzed := 18446744073709551615
    failed := 1
    skipped := 0
    truncated := true
    failures := [⟨"d\x1f.c", "\x7f/", "\\u0041 \x08\x0c"⟩] }

theorem Report.jsonText_readsBack_quotedReport : quotedReport.analyzed < UInt64.size ∧ quotedReport.failed < UInt64.size ∧
    quotedReport.skipped < UInt64.size ∧ (read? quotedReport.jsonText).bind Report.ofJson? = some quotedReport := by
  have hanalyzed : quotedReport.analyzed < UInt64.size := by decide
  have hfailed : quotedReport.failed < UInt64.size := by decide
  have hskipped : quotedReport.skipped < UInt64.size := by decide
  exact ⟨hanalyzed, hfailed, hskipped, Report.jsonText_readsBack quotedReport hanalyzed hfailed hskipped⟩

end FlowLint
