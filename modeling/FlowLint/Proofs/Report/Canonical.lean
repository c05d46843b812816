import Mathlib.Data.List.Destutter
import FlowLint.Proofs.Analysis.Cap

/-!
# The order of a report

Diagnostics are compared field by field. That one comes before another is spelled out here without a comparison (`Diagnostic.Before`),
and the comparison is shown to decide it: it says that two diagnostics are equal only if they are, and otherwise which one comes
first. There is therefore one list only in which given diagnostics stand in order and each once, and a report without a cap
is that list, whatever the order in which the functions are looked at (`diagnostics_canonical`). It is found by sorting and removing
neighbours that are equal.
-/

namespace FlowLint

/-! ## Before and behind -/

/-- A span starts first or, if both start at one place, ends first. -/
def Span.Before (a b : Span) : Prop :=
  a.startLine < b.startLine ∨ a.startLine = b.startLine ∧
    (a.startCol < b.startCol ∨ a.startCol = b.startCol ∧
      (a.endLine < b.endLine ∨ a.endLine = b.endLine ∧ a.endCol < b.endCol))

/-- A location is in a file of a smaller name or before the other one in the same file. -/
def Location.Before (a b : Location) : Prop :=
  a.file < b.file ∨ a.file = b.file ∧ a.span.Before b.span

/-- A related place is before another one or, at one location, has a smaller message. -/
def Related.Before (a b : Related) : Prop :=
  a.location.Before b.location ∨ a.location = b.location ∧ a.message < b.message

/-- A diagnostic comes before another one by the first field in which they differ: location, rule, message, function, severity and
related places. -/
def Diagnostic.Before (a b : Diagnostic) : Prop :=
  a.location.Before b.location ∨ a.location = b.location ∧
    (a.rule.ctorIdx < b.rule.ctorIdx ∨ a.rule = b.rule ∧
      (a.message < b.message ∨ a.message = b.message ∧
        (a.function < b.function ∨ a.function = b.function ∧
          (a.severity.ctorIdx < b.severity.ctorIdx ∨ a.severity = b.severity ∧ List.Lex Related.Before a.related b.related))))

/-! ## The comparison -/

theorem compare_string_lt_iff {a b : String} : compare a b = .lt ↔ a < b := compareOfLessAndEq_eq_lt

theorem Span.compare_lt_iff {a b : Span} : compare a b = .lt ↔ a.Before b := by
  have hfields : compare a b = (compare a.startLine b.startLine).then ((compare a.startCol b.startCol).then
      ((compare a.endLine b.endLine).then (compare a.endCol b.endCol))) := rfl
  simp only [hfields, Before, Ordering.then_eq_lt, Std.LawfulEqOrd.compare_eq_iff_eq, Std.compare_eq_lt]

theorem Location.compare_lt_iff {a b : Location} : compare a b = .lt ↔ a.Before b := by
  have hfields : compare a b = (compare a.file b.file).then (compare a.span b.span) := rfl
  simp only [hfields, Before, Ordering.then_eq_lt, Std.LawfulEqOrd.compare_eq_iff_eq, compare_string_lt_iff, Span.compare_lt_iff]

theorem Related.compare_lt_iff {a b : Related} : compare a b = .lt ↔ a.Before b := by
  have hfields : compare a b = (compare a.location b.location).then (compare a.message b.message) := rfl
  simp only [hfields, Before, Ordering.then_eq_lt, Std.LawfulEqOrd.compare_eq_iff_eq, compare_string_lt_iff,
    Location.compare_lt_iff]

/-- Lists of related places are compared place by place, and a list comes before a longer one that starts with it. -/
theorem Related.compare_list_lt_iff {as bs : List Related} : compare as bs = .lt ↔ List.Lex Related.Before as bs := by
  rw [List.compare_eq_compareLex]
  induction as generalizing bs with
  | nil =>
    cases bs with
    | nil => exact ⟨nofun, nofun⟩
    | cons b bs => exact ⟨fun _ => .nil, fun _ => rfl⟩
  | cons a as ih =>
    cases bs with
    | nil => exact ⟨nofun, nofun⟩
    | cons b bs =>
      rw [List.compareLex_cons_cons, Ordering.then_eq_lt, compare_lt_iff, Std.LawfulEqOrd.compare_eq_iff_eq, ih]
      constructor
      · rintro (h | ⟨rfl, h⟩)
        · exact .rel h
        · exact .cons h
      · intro h
        cases h with
        | rel h => exact .inl h
        | cons h => exact .inr ⟨rfl, h⟩

namespace Diagnostic

/-- The comparison of diagnostics decides which one comes first. -/
theorem compare_lt_iff {a b : Diagnostic} : compare a b = .lt ↔ a.Before b := by
  have hfields : compare a b = (compare a.location b.location).then ((compare a.rule b.rule).then
      ((compare a.message b.message).then ((compare a.function b.function).then
        ((compare a.severity b.severity).then (compare a.related b.related))))) := rfl
  have hrule : compare a.rule b.rule = .lt ↔ a.rule.ctorIdx < b.rule.ctorIdx := Nat.compare_eq_lt
  have hseverity : compare a.severity b.severity = .lt ↔ a.severity.ctorIdx < b.severity.ctorIdx := Nat.compare_eq_lt
  simp only [hfields, Before, Ordering.then_eq_lt, Std.LawfulEqOrd.compare_eq_iff_eq, compare_string_lt_iff,
    Location.compare_lt_iff, hrule, hseverity, Related.compare_list_lt_iff]

theorem compare_gt_iff {a b : Diagnostic} : compare a b = .gt ↔ b.Before a := by
  rw [Std.OrientedCmp.gt_iff_lt, compare_lt_iff]

theorem Before.trans {a b c : Diagnostic} (hab : a.Before b) (hbc : b.Before c) : a.Before c :=
  compare_lt_iff.1 (Std.TransCmp.lt_trans (compare_lt_iff.2 hab) (compare_lt_iff.2 hbc))

theorem Before.asymm (a b : Diagnostic) (hab : a.Before b) : ¬b.Before a := by
  intro hba
  exact Std.OrientedCmp.not_lt_of_lt (compare_lt_iff.2 hab) (compare_lt_iff.2 hba)

end Diagnostic

/-! ## The list of a report -/

namespace Report

/-- The diagnostics of a report stand in order. -/
theorem canonical_pairwise (ds : List Diagnostic) : (canonical ds).Pairwise Diagnostic.Before :=
  (OrdSet.ofList ds).ascending.imp Diagnostic.compare_lt_iff.1

/-- A list in order of the diagnostics of a report is that of the report. -/
theorem eq_canonical {ds found : List Diagnostic} (hfound : found.Pairwise Diagnostic.Before) (h : ∀ d, d ∈ found ↔ d ∈ ds) :
    canonical ds = found :=
  eq_of_mem_iff Diagnostic.Before.asymm (canonical_pairwise ds) hfound fun d => mem_canonical.trans (h d).symm

/-- Sorting puts equal diagnostics side by side, so that it is enough to remove those that follow an equal one. -/
theorem canonical_eq_destutter (ds : List Diagnostic) : canonical ds = (Diagnostic.sort ds).destutter (· ≠ ·) := by
  have hsorted : (Diagnostic.sort ds).Pairwise fun a b => (compare a b).isLE = true :=
    List.pairwise_mergeSort (fun a b c => Std.TransCmp.isLE_trans) isLE_total ds
  have hantisymm : Std.Antisymm fun a b : Diagnostic => (compare a b).isLE = true :=
    ⟨fun a b hab hba => Std.LawfulEqCmp.eq_of_compare (Std.OrientedCmp.isLE_antisymm hab hba)⟩
  rw [hsorted.destutter_eq_dedup]
  refine eq_canonical ?_ fun d => ?_
  · have hle := hsorted.sublist (List.dedup_sublist (Diagnostic.sort ds))
    have hne : (Diagnostic.sort ds).dedup.Pairwise (· ≠ ·) := List.nodup_dedup _
    refine (hle.and hne).imp fun {a b} h => Diagnostic.compare_lt_iff.1 ?_
    obtain ⟨hle, hne⟩ := h
    cases hcompare : compare a b with
    | lt => rfl
    | eq => exact absurd (Std.LawfulEqCmp.eq_of_compare hcompare) hne
    | gt => simp [hcompare] at hle
  · rw [List.mem_dedup, Diagnostic.sort, List.mem_mergeSort]

/-- Diagnostics have one total order, that of their fields, in which only equal ones are equal. A report without a cap lists what is
found in its functions in that order, each diagnostic once, as sorting and removing equal neighbours does; it lists the same
whatever the order of the functions. -/
theorem diagnostics_canonical (os : List Outcome) :
    (∀ a b : Diagnostic, (compare a b = .eq ↔ a = b) ∧ (compare a b = .lt ↔ a.Before b) ∧ (compare a b = .gt ↔ b.Before a)) ∧
    (∀ a b c : Diagnostic, a.Before b → b.Before c → a.Before c) ∧
    (ofOutcomes none os).diagnostics.Pairwise Diagnostic.Before ∧
    (∀ d, d ∈ (ofOutcomes none os).diagnostics ↔ ∃ o ∈ os, d ∈ o.findings) ∧
    (ofOutcomes none os).diagnostics.Nodup ∧
    (ofOutcomes none os).diagnostics = (Diagnostic.sort (os.flatMap Outcome.findings)).destutter (· ≠ ·) ∧
    ∀ os', os.Perm os' → (ofOutcomes none os').diagnostics = (ofOutcomes none os).diagnostics := by
  have hdiagnostics : ∀ os, (ofOutcomes none os).diagnostics = canonical (os.flatMap Outcome.findings) := fun _ => rfl
  simp only [hdiagnostics]
  refine ⟨fun a b => ⟨Std.LawfulEqOrd.compare_eq_iff_eq, Diagnostic.compare_lt_iff, Diagnostic.compare_gt_iff⟩,
    fun a b c => Diagnostic.Before.trans, canonical_pairwise _, fun d => ?_, nodup_canonical _, canonical_eq_destutter _,
    fun os' h => ?_⟩
  · rw [mem_canonical, List.mem_flatMap]
  · exact eq_canonical (canonical_pairwise _) fun d => mem_canonical.trans (h.flatMap_right _).mem_iff

/-- A finding in a line. -/
def inLine (line : UInt32) : Diagnostic where
  location := ⟨"a.c", ⟨line, 1, line, 9⟩⟩
  severity := .warning
  rule := .malformedInput
  message := "Function 'f' was not analyzed"
  function := "f"
  related := []

/-- Two functions with a finding in common, in both orders. -/
theorem diagnostics_canonical_inLine :
    (inLine 1).Before (inLine 2) ∧
    (ofOutcomes none [.analyzed [inLine 2, inLine 1], .analyzed [inLine 1]]).diagnostics = [inLine 1, inLine 2] ∧
    (ofOutcomes none [.analyzed [inLine 1], .analyzed [inLine 2, inLine 1]]).diagnostics = [inLine 1, inLine 2] := by
  obtain ⟨hcompare, -, -, -, -, -, hsame⟩ := diagnostics_canonical [.analyzed [inLine 2, inLine 1], .analyzed [inLine 1]]
  have hlist : (ofOutcomes none [.analyzed [inLine 2, inLine 1], .analyzed [inLine 1]]).diagnostics = [inLine 1, inLine 2] := by
    decide +kernel
  exact ⟨(hcompare _ _).2.1.1 (by decide +kernel), hlist, (hsame _ (.swap _ _ _)).trans hlist⟩

end Report

end FlowLint
