import FlowLint.Proofs.Analysis.Isolation
import FlowLint.Proofs.Report.Canonical

/-!
# The log of failures

Functions may be looked at side by side, so that their failures are collected in any order before they are put in order of file and
function. The sort is stable: failures of one file and function are listed as they were collected (`failureLog_filter`), and only
the others are put in order. So the log is the same in each order of collection exactly if failures of one file and function give
the same reason (`failures_reordered`).
-/

namespace FlowLint

namespace Failure

/-- A failure comes before another one if its file does or, in one file, its function. -/
def Before (a b : Failure) : Prop := a.file < b.file ∨ a.file = b.file ∧ a.function < b.function

/-- The comparison that the log is sorted by. -/
abbrev order : Failure → Failure → Ordering := compareLex (compareOn file) (compareOn function)

/-- Whether a failure is one of a function of a file. -/
def isOf (file function : String) (f : Failure) : Bool := f.file == file && f.function == function

variable {a b : Failure} {file function : String}

theorem eq_of_fields (hfile : a.file = b.file) (hfunction : a.function = b.function) (hreason : a.reason = b.reason) : a = b := by
  cases a
  cases b
  simp_all

/-- A failure does not come before one of the same file and function. -/
theorem not_before_of_same (hfile : a.file = b.file) (hfunction : a.function = b.function) : ¬a.Before b := by
  simp [Before, hfile, hfunction]

theorem isOf_iff : a.isOf file function = true ↔ a.file = file ∧ a.function = function := by
  unfold isOf
  rw [Bool.and_eq_true, beq_iff_eq, beq_iff_eq]

theorem order_eq (a b : Failure) : order a b = (compare a.file b.file).then (compare a.function b.function) := rfl

theorem order_eq_eq_iff : order a b = .eq ↔ a.file = b.file ∧ a.function = b.function := by
  rw [order_eq, Ordering.then_eq_eq, Std.LawfulEqOrd.compare_eq_iff_eq, Std.LawfulEqOrd.compare_eq_iff_eq]

theorem order_isLE_iff : (order a b).isLE = true ↔ ¬b.Before a := by
  have hgt : order a b = .gt ↔ b.Before a := by
    rw [Std.OrientedCmp.gt_iff_lt, order_eq, Ordering.then_eq_lt, Std.LawfulEqOrd.compare_eq_iff_eq, compare_string_lt_iff,
      compare_string_lt_iff, Before]
  rw [← hgt, Ordering.isLE_iff_ne_gt]

/-- Failures none of which comes before the other are of one file and function. -/
theorem same_of_not_before (hab : ¬a.Before b) (hba : ¬b.Before a) : a.file = b.file ∧ a.function = b.function :=
  order_eq_eq_iff.1 (Std.OrientedCmp.isLE_antisymm (order_isLE_iff.2 hba) (order_isLE_iff.2 hab))

end Failure

/-! ## What the sort keeps -/

variable {fs : List Failure}

theorem failureLog_perm (fs : List Failure) : (failureLog fs).Perm fs := List.mergeSort_perm _ _

/-- No failure stands behind one that it comes before. -/
theorem failureLog_ascending (fs : List Failure) : (failureLog fs).Pairwise fun a b => ¬b.Before a :=
  (List.pairwise_mergeSort (fun _ _ _ => Std.TransCmp.isLE_trans) isLE_total fs).imp Failure.order_isLE_iff.1

/-- Failures in order stay as they are. -/
theorem failureLog_of_ascending (h : fs.Pairwise fun a b => ¬b.Before a) : failureLog fs = fs :=
  List.mergeSort_of_pairwise (h.imp Failure.order_isLE_iff.2)

/-- The failures of one file and function are listed in the order in which they were collected. -/
theorem failureLog_filter (fs : List Failure) (file function : String) :
    (failureLog fs).filter (Failure.isOf file function) = fs.filter (Failure.isOf file function) := by
  have hsame : (fs.filter (Failure.isOf file function)).Pairwise fun a b => (Failure.order a b).isLE = true := by
    refine List.pairwise_of_forall_mem_list fun a ha b hb => ?_
    obtain ⟨hfile, hfunction⟩ := Failure.isOf_iff.1 (List.mem_filter.1 ha).2
    obtain ⟨hfile', hfunction'⟩ := Failure.isOf_iff.1 (List.mem_filter.1 hb).2
    rw [Failure.order_eq_eq_iff.2 ⟨hfile.trans hfile'.symm, hfunction.trans hfunction'.symm⟩]
    rfl
  have hsub : (fs.filter (Failure.isOf file function)).Sublist (failureLog fs) :=
    List.sublist_mergeSort (fun _ _ _ => Std.TransCmp.isLE_trans) isLE_total hsame List.filter_sublist
  have hfilter := hsub.filter (Failure.isOf file function)
  simp only [List.filter_filter, Bool.and_self] at hfilter
  exact (hfilter.eq_of_length ((failureLog_perm fs).filter _).length_eq.symm).symm

/-- The log is the same in each order of collection exactly if failures of one file and function are the same. -/
theorem failureLog_perm_iff : (∀ fs', fs.Perm fs' → failureLog fs' = failureLog fs) ↔
    ∀ a ∈ fs, ∀ b ∈ fs, a.file = b.file → a.function = b.function → a = b := by
  constructor
  · intro h a ha b hb hfile hfunction
    by_contra hne
    -- the two failures are collected first, in both orders
    obtain ⟨rest, hrest⟩ : ∃ rest, fs.Perm (a :: b :: rest) :=
      ⟨_, (List.perm_cons_erase ha).trans ((List.perm_cons_erase ((List.mem_erase_of_ne (Ne.symm hne)).2 hb)).cons a)⟩
    have hlog : failureLog (a :: b :: rest) = failureLog (b :: a :: rest) :=
      (h _ hrest).trans (h _ (hrest.trans (.swap b a rest))).symm
    have hfilter := congrArg (List.filter (Failure.isOf a.file a.function)) hlog
    have ha' : a.isOf a.file a.function = true := Failure.isOf_iff.2 ⟨rfl, rfl⟩
    have hb' : b.isOf a.file a.function = true := Failure.isOf_iff.2 ⟨hfile.symm, hfunction.symm⟩
    simp only [failureLog_filter, List.filter_cons_of_pos ha', List.filter_cons_of_pos hb'] at hfilter
    exact hne (List.cons.inj hfilter).1
  · intro h fs' hperm
    refine List.Perm.eq_of_pairwise (fun a b ha hb hba hab => ?_) (failureLog_ascending fs') (failureLog_ascending fs)
      ((failureLog_perm fs').trans (hperm.symm.trans (failureLog_perm fs).symm))
    obtain ⟨hfile, hfunction⟩ := Failure.same_of_not_before hab hba
    exact h a (hperm.mem_iff.2 ((failureLog_perm fs').mem_iff.1 ha)) b ((failureLog_perm fs).mem_iff.1 hb) hfile hfunction

/-! ## Failures of a run -/

/-- The failures that a run collects when it looks at one function after the other. -/
def collected (s : Settings.Valid) (units : List SourceUnit) : List Failure :=
  (outcomes s units).filterMap Outcome.failure?

/-- In whatever order the failures of a run are collected, its log has all of them, no one behind one that it comes before, and those
of one file and function as they were collected. The log is the same in each order exactly if no function of a file fails for another
reason than a function of the same name and file. -/
theorem failures_reordered (s : Settings.Valid) (units : List SourceUnit) :
    (∀ fs, (collected s units).Perm fs →
      (failureLog fs).Perm (analyze s units).failures ∧ (failureLog fs).Pairwise (fun a b => ¬b.Before a) ∧
        ∀ file function, (failureLog fs).filter (Failure.isOf file function) = fs.filter (Failure.isOf file function)) ∧
    ((∀ fs, (collected s units).Perm fs → failureLog fs = (analyze s units).failures) ↔
      ∀ a ∈ collected s units, ∀ b ∈ collected s units, a.file = b.file → a.function = b.function → a.reason = b.reason) := by
  have hfailures : (analyze s units).failures = failureLog (collected s units) := rfl
  rw [hfailures]
  refine ⟨fun fs hperm => ⟨?_, failureLog_ascending fs, failureLog_filter fs⟩, failureLog_perm_iff.trans ?_⟩
  · exact (failureLog_perm fs).trans (hperm.symm.trans (failureLog_perm _).symm)
  · refine forall₂_congr fun a _ => forall₂_congr fun b _ => forall₂_congr fun hfile hfunction => ?_
    exact ⟨fun h => h ▸ rfl, fun hreason => Failure.eq_of_fields hfile hfunction hreason⟩

/-- A function without blocks, and one of the same name whose entry is missing. -/
def brokenOverloads : List SourceUnit :=
  [⟨"a.c", none, [],
    [⟨"f", .zero, .void, false, [], [], 0⟩, ⟨"f", .zero, .void, false, [], [⟨0, [], []⟩], 7⟩]⟩]

/-- The failure of the function without blocks. -/
def noBlocks : Failure := ⟨"a.c", "f", "Malformed input in 'f': function has no basic blocks"⟩

/-- The failure of the function without entry. -/
def noEntry : Failure := ⟨"a.c", "f", "Malformed input in 'f': entry block bb7 does not exist"⟩

/-- Two such functions are listed as they are collected, hence not the same in both orders. -/
theorem failures_brokenOverloads : collected standardSettings brokenOverloads = [noBlocks, noEntry] ∧
    (analyze standardSettings brokenOverloads).failures = [noBlocks, noEntry] ∧
    [noBlocks, noEntry].Perm [noEntry, noBlocks] ∧ failureLog [noEntry, noBlocks] ≠ [noBlocks, noEntry] := by
  have hsorted : ∀ a b : Failure, a.file = b.file → a.function = b.function → failureLog [a, b] = [a, b] :=
    fun a b hfile hfunction => failureLog_of_ascending
      (List.pairwise_pair.2 (Failure.not_before_of_same hfile.symm hfunction.symm))
  have hcollected : collected standardSettings brokenOverloads = [noBlocks, noEntry] := by decide +kernel
  refine ⟨hcollected, (congrArg failureLog hcollected).trans (hsorted _ _ rfl rfl), .swap _ _ _, ?_⟩
  rw [hsorted noEntry noBlocks rfl rfl]
  decide

end FlowLint
