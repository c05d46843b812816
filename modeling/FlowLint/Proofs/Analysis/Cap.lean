import Mathlib.Data.List.Dedup
import FlowLint.Analysis

/-!
# Runs with a cap

A run with a cap on its diagnostics looks at the shortest list of first functions whose diagnostics, repetitions included, are as
many as the cap, and skips the others (`exists_stopsAt`). Its report has no diagnostic that a run without a cap does not have, and
if it is not truncated it is the same report (`analyze_capped`). Since a report lists each diagnostic once, a run may stop with
fewer than the cap: exactly if fewer are different (`length_diagnostics_of_skipped`).
-/

namespace FlowLint

/-! ## Diagnostics in order, each once -/

namespace Report

variable {ds : List Diagnostic} {d : Diagnostic}

theorem mem_canonical : d ∈ canonical ds ↔ d ∈ ds := OrdSet.mem_ofList

/-- No diagnostic is listed twice. -/
theorem nodup_canonical (ds : List Diagnostic) : (canonical ds).Nodup := by
  refine (OrdSet.ofList ds).ascending.imp fun {a b} (hab : compare a b = .lt) heq => ?_
  have hself : compare b b = .eq := Std.ReflCmp.compare_self
  rw [heq, hself] at hab
  cases hab

/-- As many are listed as are different. -/
theorem length_canonical (ds : List Diagnostic) : (canonical ds).length = ds.dedup.length := by
  refine ((List.perm_ext_iff_of_nodup (nodup_canonical ds) (List.nodup_dedup ds)).2 fun d => ?_).length_eq
  rw [mem_canonical, List.mem_dedup]

end Report

/-! ## Where a run stops -/

/-- The diagnostics of functions, one function after the other. -/
def found (look : Task → Outcome) (ts : List Task) : List Diagnostic := ts.flatMap fun t => (look t).findings

/-- The outcomes if a run looks at `n` functions and skips the others. -/
def outcomesUpTo (look : Task → Outcome) (ts : List Task) (n : Nat) : List Outcome :=
  (ts.take n).map look ++ (ts.drop n).map fun _ => .skipped

/-- A run that has found `count` diagnostics before stops behind `n` of its functions: fewer of them do not reach the cap, and
these do unless they are all. -/
structure StopsAt (look : Task → Outcome) (cap count : Nat) (ts : List Task) (n : Nat) : Prop where
  le : n ≤ ts.length
  before : ∀ m < n, count + (found look (ts.take m)).length < cap
  reached : n = ts.length ∨ cap ≤ count + (found look (ts.take n)).length

variable {look : Task → Outcome} {ts : List Task} {cap count n : Nat}

theorem found_cons (t : Task) (ts : List Task) : found look (t :: ts) = (look t).findings ++ found look ts := List.flatMap_cons

/-- A run that goes on behind its first function stops where it stops from there. -/
theorem StopsAt.cons {t : Task} (hcount : count < cap) (h : StopsAt look cap (count + (look t).findings.length) ts n) :
    StopsAt look cap count (t :: ts) (n + 1) := by
  have hfound : ∀ m, count + (found look ((t :: ts).take (m + 1))).length =
      count + (look t).findings.length + (found look (ts.take m)).length := by
    intro m
    rw [List.take_succ_cons, found_cons, List.length_append, Nat.add_assoc]
  refine ⟨Nat.succ_le_succ h.le, fun m hm => ?_, ?_⟩
  · cases m with
    | zero => exact hcount
    | succ m =>
      rw [hfound]
      exact h.before m (Nat.lt_of_succ_lt_succ hm)
  · rw [hfound]
    exact h.reached.imp_left fun hn => congrArg (· + 1) hn

/-- A run that has not reached its cap stops somewhere, and skips what is behind. -/
theorem exists_stopsAt (look : Task → Outcome) (hcount : count < cap) (ts : List Task) :
    ∃ n, StopsAt look cap count ts n ∧ outcomesFrom look (some cap) count ts = outcomesUpTo look ts n := by
  induction ts generalizing count with
  | nil => exact ⟨0, ⟨Nat.le_refl 0, fun m hm => absurd hm (Nat.not_lt_zero m), .inl rfl⟩, rfl⟩
  | cons t ts ih =>
    by_cases hcap : cap ≤ count + (look t).findings.length
    · refine ⟨1, ⟨Nat.succ_le_succ (Nat.zero_le _), fun m hm => ?_, .inr ?_⟩, ?_⟩
      · obtain rfl := Nat.lt_one_iff.1 hm
        exact hcount
      · simpa [found] using hcap
      · simp [outcomesFrom, outcomesUpTo, capReached, hcap]
    · obtain ⟨n, hn, hout⟩ := ih (Nat.lt_of_not_le hcap)
      refine ⟨n + 1, hn.cons hcount, ?_⟩
      simp [outcomesFrom, capReached, hcap, hout, outcomesUpTo]

/-- Without a cap nothing is skipped. -/
theorem outcomesFrom_none (look : Task → Outcome) (count : Nat) (ts : List Task) :
    outcomesFrom look none count ts = ts.map look := by
  induction ts generalizing count with
  | nil => rfl
  | cons t ts ih => exact congrArg (look t :: ·) (ih _)

theorem outcomesUpTo_length (look : Task → Outcome) (ts : List Task) : outcomesUpTo look ts ts.length = ts.map look := by
  simp [outcomesUpTo]

/-- The diagnostics of the functions that a run looks at. -/
theorem findings_outcomesUpTo (look : Task → Outcome) (ts : List Task) (n : Nat) :
    (outcomesUpTo look ts n).flatMap Outcome.findings = found look (ts.take n) := by
  have hskipped : ∀ l : List Task, (l.map fun _ => Outcome.skipped).flatMap Outcome.findings = [] := by
    intro l
    simp [Outcome.findings]
  rw [outcomesUpTo, List.flatMap_append, hskipped, List.append_nil, List.flatMap_map]
  rfl

/-- The functions that a run skips, if it skips none that it looks at. -/
theorem countP_isSkipped_outcomesUpTo (hlook : ∀ t, (look t).isSkipped = false) (ts : List Task) (n : Nat) :
    (outcomesUpTo look ts n).countP Outcome.isSkipped = ts.length - n := by
  have hlooked : ((ts.take n).map look).countP Outcome.isSkipped = 0 := by
    refine List.countP_eq_zero.2 fun o ho => ?_
    obtain ⟨t, -, rfl⟩ := List.mem_map.1 ho
    rw [hlook t]
    exact Bool.false_ne_true
  have hskipped : ((ts.drop n).map fun _ => Outcome.skipped).countP Outcome.isSkipped = ts.length - n := by
    rw [List.countP_eq_length.2, List.length_map, List.length_drop]
    intro o ho
    obtain ⟨t, -, rfl⟩ := List.mem_map.1 ho
    rfl
  rw [outcomesUpTo, List.countP_append, hlooked, hskipped, Nat.zero_add]

/-! ## Reports -/

namespace Report

/-- The number of functions that were looked at. -/
def looked (r : Report) : Nat := r.analyzed + r.failed

/-- Each function is analyzed, has failed, or is skipped. -/
theorem count_ofOutcomes (cap : Option Nat) (os : List Outcome) :
    (ofOutcomes cap os).analyzed + (ofOutcomes cap os).failed + (ofOutcomes cap os).skipped = os.length := by
  have hcount : os.countP Outcome.isAnalyzed + (os.countP fun o => o.failure?.isSome) + os.countP Outcome.isSkipped =
      os.length := by
    induction os with
    | nil => rfl
    | cons o os ih =>
      cases o with
      | analyzed _ | failed _ _ | skipped =>
        simp [List.countP_cons, Outcome.isAnalyzed, Outcome.failure?, Outcome.isSkipped] at ih ⊢
        omega
  exact hcount

/-- A cap cuts the list of what is found. -/
theorem diagnostics_ofOutcomes_some (cap : Nat) (os : List Outcome) :
    (ofOutcomes (some cap) os).diagnostics = (canonical (os.flatMap Outcome.findings)).take cap := rfl

/-- A report that is not truncated is the one without a cap. -/
theorem ofOutcomes_of_not_truncated {cap : Nat} {os : List Outcome} (h : (ofOutcomes (some cap) os).truncated = false) :
    ofOutcomes (some cap) os = ofOutcomes none os ∧ (ofOutcomes (some cap) os).skipped = 0 := by
  have hcases : ¬cap < (canonical (os.flatMap Outcome.findings)).length ∧ ¬0 < os.countP Outcome.isSkipped := by
    simpa [ofOutcomes] using h
  refine ⟨?_, Nat.eq_zero_of_not_pos hcases.2⟩
  unfold ofOutcomes
  simp [List.take_of_length_le (Nat.le_of_not_lt hcases.1), hcases.1]

end Report

/-! ## Programs -/

/-- Settings have no problem if each of them is within its bounds. -/
theorem Settings.problem?_eq_none_iff {s : Settings} : s.problem? = none ↔
    (s.wordSize = 32 ∨ s.wordSize = 64) ∧ (s.wcharWidth = 2 ∨ s.wcharWidth = 4) ∧ s.mismatch? = none ∧
      (s.maxIterations ≠ 0 ∧ s.maxIterations ≤ 10000) ∧ (∀ n ∈ s.threads, n ≠ 0 ∧ n ≤ 1024) ∧ s.diagnosticCap ≠ some 0 := by
  unfold Settings.problem?
  by_cases hword : s.wordSize = 32 ∨ s.wordSize = 64
  · by_cases hwchar : s.wcharWidth = 2 ∨ s.wcharWidth = 4
    · rw [if_neg (by tauto), if_neg (by tauto)]
      simp [hword, hwchar]
    · rw [if_neg (by tauto), if_pos (by tauto)]
      simp [hwchar]
  · rw [if_pos (by tauto)]
    simp [hword]

/-- Settings without a cap on diagnostics. -/
def Settings.uncapped (s : Settings) : Settings := { s with diagnosticCap := none }

namespace Settings.Valid

/-- Settings without a cap on diagnostics have no other problem. -/
def uncapped (s : Settings.Valid) : Settings.Valid where
  val := s.val.uncapped
  property := by
    obtain ⟨hword, hwchar, hmodel, hiterations, hthreads, -⟩ := Settings.problem?_eq_none_iff.1 s.property
    exact Settings.problem?_eq_none_iff.2 ⟨hword, hwchar, hmodel, hiterations, hthreads, nofun⟩

/-- A cap is at least one. -/
theorem cap_pos (s : Settings.Valid) {c : UInt64} (hc : s.val.diagnosticCap = some c) : 0 < c.toNat := by
  obtain ⟨-, -, -, -, -, hcap⟩ := Settings.problem?_eq_none_iff.1 s.property
  refine Nat.pos_of_ne_zero fun hzero => hcap ?_
  have hc0 : c = 0 := UInt64.toNat_inj.1 hzero
  rw [hc, hc0]

end Settings.Valid

/-- What comes of the functions of a program when they are looked at. -/
def outcomeIn (s : Settings.Valid) (units : List SourceUnit) : Task → Outcome :=
  analyzeTask (.ofSettings s.val (.ofUnits units) units)

/-- The diagnostics of the functions that a run looks at, repetitions included. -/
def foundIn (s : Settings.Valid) (units : List SourceUnit) : List Diagnostic :=
  found (outcomeIn s units) ((tasks units).take (analyze s units).looked)

variable {s : Settings.Valid} {units : List SourceUnit} {c : UInt64}

/-- A function that is looked at is not skipped. -/
theorem isSkipped_outcomeIn (t : Task) : (outcomeIn s units t).isSkipped = false := by
  unfold outcomeIn analyzeTask faultOutcome
  split <;> rfl

/-- A run without a cap reports on all functions, with the same outcomes. -/
theorem analyze_uncapped (s : Settings.Valid) (units : List SourceUnit) :
    analyze s.uncapped units = .ofOutcomes none ((tasks units).map (outcomeIn s units)) := by
  rw [← outcomesFrom_none _ 0]
  rfl

/-- A run without a cap is not truncated. -/
theorem truncated_uncapped (s : Settings.Valid) (units : List SourceUnit) : (analyze s.uncapped units).truncated = false := by
  have hskipped := countP_isSkipped_outcomesUpTo (@isSkipped_outcomeIn s units) (tasks units) (tasks units).length
  rw [outcomesUpTo_length, Nat.sub_self] at hskipped
  rw [analyze_uncapped]
  unfold Report.ofOutcomes
  simp [hskipped]

/-- A run with a cap reports on the functions that it looks at, and skips the others. -/
theorem analyze_eq (hc : s.val.diagnosticCap = some c) :
    StopsAt (outcomeIn s units) c.toNat 0 (tasks units) (analyze s units).looked ∧
      analyze s units = .ofOutcomes (some c.toNat) (outcomesUpTo (outcomeIn s units) (tasks units) (analyze s units).looked) ∧
      (analyze s units).skipped = (tasks units).length - (analyze s units).looked := by
  obtain ⟨n, hn, hout⟩ := exists_stopsAt (outcomeIn s units) (s.cap_pos hc) (tasks units)
  have hr : analyze s units = .ofOutcomes (some c.toNat) (outcomesUpTo (outcomeIn s units) (tasks units) n) := by
    have hcap : s.val.cap = some c.toNat := congrArg (Option.map UInt64.toNat) hc
    rw [← hout, analyze, outcomes, hcap]
    rfl
  have hskipped : (analyze s units).skipped = (tasks units).length - n := by
    rw [hr]
    exact countP_isSkipped_outcomesUpTo isSkipped_outcomeIn (tasks units) n
  have hlen : (outcomesUpTo (outcomeIn s units) (tasks units) n).length = (tasks units).length := by
    rw [outcomesUpTo, List.length_append, List.length_map, List.length_map, ← List.length_append, List.take_append_drop]
  have hsum : (analyze s units).looked + (analyze s units).skipped = (tasks units).length := by
    rw [hr, Report.looked, Report.count_ofOutcomes, hlen]
  have hlooked : (analyze s units).looked = n := by
    have hle := hn.le
    omega
  rw [hlooked]
  exact ⟨hn, hr, hskipped⟩

/-- A run with a cap lists what it finds, up to the cap. -/
theorem diagnostics_analyze (hc : s.val.diagnosticCap = some c) :
    (analyze s units).diagnostics = (Report.canonical (foundIn s units)).take c.toNat := by
  obtain ⟨-, hr, -⟩ := @analyze_eq s units c hc
  rw [hr, Report.diagnostics_ofOutcomes_some, findings_outcomesUpTo]
  rfl

/-- A run with a cap looks at the shortest list of first functions whose diagnostics, repetitions included, reach the cap, or at
all, and skips the others. It reports no more diagnostics than the cap, and none that a run without a cap does not report; its
report is the same exactly if it is not truncated. -/
theorem analyze_capped (s : Settings.Valid) (units : List SourceUnit) {c : UInt64} (hc : s.val.diagnosticCap = some c) :
    StopsAt (outcomeIn s units) c.toNat 0 (tasks units) (analyze s units).looked ∧
    analyze s units = .ofOutcomes (some c.toNat) (outcomesUpTo (outcomeIn s units) (tasks units) (analyze s units).looked) ∧
    (analyze s units).analyzed + (analyze s units).failed + (analyze s units).skipped = (tasks units).length ∧
    (analyze s units).diagnostics.length ≤ c.toNat ∧
    (∀ d ∈ (analyze s units).diagnostics, d ∈ (analyze s.uncapped units).diagnostics) ∧
    ((analyze s units).truncated = false ↔ analyze s units = analyze s.uncapped units) := by
  obtain ⟨hn, hr, hskipped⟩ := @analyze_eq s units c hc
  have hdiagnostics := @diagnostics_analyze s units c hc
  refine ⟨hn, hr, ?_, ?_, fun d hd => ?_, fun h => ?_, fun h => ?_⟩
  · rw [hskipped]
    exact Nat.add_sub_cancel' hn.le
  · rw [hdiagnostics]
    exact List.length_take_le _ _
  · rw [hdiagnostics] at hd
    obtain ⟨t, ht, hd⟩ := List.mem_flatMap.1 (Report.mem_canonical.1 (List.mem_of_mem_take hd))
    rw [analyze_uncapped]
    exact Report.mem_canonical.2 (List.mem_flatMap.2 ⟨_, List.mem_map_of_mem (List.mem_of_mem_take ht), hd⟩)
  · rw [hr] at h
    obtain ⟨hsame, hnone⟩ := Report.ofOutcomes_of_not_truncated h
    rw [← hr, hskipped] at hnone
    have hall : (analyze s units).looked = (tasks units).length := Nat.le_antisymm hn.le (Nat.sub_eq_zero_iff_le.1 hnone)
    rw [hr, hsame, hall, outcomesUpTo_length, analyze_uncapped]
  · rw [h]
    exact truncated_uncapped s units

/-- A function that returns the address of its array. -/
def returnsArray : Function where
  name := "f"
  span := .zero
  returnType := .pointer (.char .char)
  variadic := false
  vars := [⟨0, "x", .array (.char .char) (some 8), .automatic, .localVar, false, .zero⟩]
  blocks := [⟨0, [⟨.jump ⟨.return, none, none, some (.var ⟨.array (.char .char) (some 8), .zero⟩ 0)⟩, .zero⟩], []⟩]
  entry := 0

/-- Three files with such a function, the second of which may be the first one compiled for another target. -/
def threeFiles (repeated : Bool) : List SourceUnit :=
  [⟨"a.c", some .linuxX64, [], [returnsArray]⟩,
   ⟨if repeated then "a.c" else "b.c", some .windowsX64, [], [returnsArray]⟩,
   ⟨"c.c", none, [], [returnsArray]⟩]

/-- The standard settings with a cap. -/
def cappedAt (c : UInt64) (hc : c ≠ 0) : Settings.Valid where
  val := { Settings.standard with diagnosticCap := some c }
  property := by
    obtain ⟨hword, hwchar, hmodel, hiterations, hthreads, -⟩ :=
      Settings.problem?_eq_none_iff.1 (by decide : Settings.standard.problem? = none)
    exact Settings.problem?_eq_none_iff.2
      ⟨hword, hwchar, hmodel, hiterations, hthreads, fun h => hc (Option.some.inj h)⟩

/-- A run whose last function reaches the cap, with a repetition among what is found: nothing is cut. -/
theorem analyze_threeFiles :
    (cappedAt 3 (by decide)).val.diagnosticCap = some 3 ∧ (foundIn (cappedAt 3 (by decide)) (threeFiles true)).length = 3 ∧
      (analyze (cappedAt 3 (by decide)) (threeFiles true)).diagnostics.length = 2 ∧
      analyze (cappedAt 3 (by decide)) (threeFiles true) = analyze (cappedAt 3 (by decide)).uncapped (threeFiles true) := by
  refine ⟨rfl, by decide +kernel, by decide +kernel, ?_⟩
  obtain ⟨-, -, -, -, -, hsame⟩ := analyze_capped (cappedAt 3 (by decide)) (threeFiles true) rfl
  exact hsame.1 (by decide +kernel)

/-! ## Fewer than the cap -/

/-- A run that skips functions has found as many diagnostics as its cap, but it reports as many only if as many of them are
different. -/
theorem length_diagnostics_of_skipped (s : Settings.Valid) (units : List SourceUnit) {c : UInt64}
    (hc : s.val.diagnosticCap = some c) (hskipped : 0 < (analyze s units).skipped) :
    c.toNat ≤ (foundIn s units).length ∧
    (analyze s units).diagnostics.length = min c.toNat (foundIn s units).dedup.length ∧
    ((analyze s units).diagnostics.length = c.toNat ↔ c.toNat ≤ (foundIn s units).dedup.length) ∧
    ((foundIn s units).Nodup → (analyze s units).diagnostics.length = c.toNat) := by
  obtain ⟨hn, -, hcount⟩ := @analyze_eq s units c hc
  have hreached : c.toNat ≤ (foundIn s units).length := by
    have hlt : (analyze s units).looked ≠ (tasks units).length := by omega
    have h := hn.reached.resolve_left hlt
    rwa [Nat.zero_add] at h
  have hlength : (analyze s units).diagnostics.length = min c.toNat (foundIn s units).dedup.length := by
    rw [diagnostics_analyze hc, List.length_take, Report.length_canonical]
  refine ⟨hreached, hlength, ?_, fun hnodup => ?_⟩
  · rw [hlength]
    omega
  · rw [hlength, hnodup.dedup]
    exact Nat.min_eq_left hreached

/-- A run that stops behind two different diagnostics reports both. -/
theorem length_diagnostics_threeFiles :
    (cappedAt 2 (by decide)).val.diagnosticCap = some 2 ∧ 0 < (analyze (cappedAt 2 (by decide)) (threeFiles false)).skipped ∧
      (analyze (cappedAt 2 (by decide)) (threeFiles false)).diagnostics.length = 2 := by
  have hskipped : 0 < (analyze (cappedAt 2 (by decide)) (threeFiles false)).skipped := by decide +kernel
  obtain ⟨-, -, -, hnodup⟩ := length_diagnostics_of_skipped (cappedAt 2 (by decide)) (threeFiles false) rfl hskipped
  exact ⟨rfl, hskipped, hnodup (by decide +kernel)⟩

/-- A run that stops behind a diagnostic and its repetition reports one, though another one is left to be found. -/
theorem skipped_threeFiles_short :
    (cappedAt 2 (by decide)).val.diagnosticCap = some 2 ∧ (analyze (cappedAt 2 (by decide)) (threeFiles true)).skipped = 1 ∧
      (analyze (cappedAt 2 (by decide)) (threeFiles true)).diagnostics.length = 1 ∧
      (analyze (cappedAt 2 (by decide)).uncapped (threeFiles true)).diagnostics.length = 2 := by
  decide +kernel

end FlowLint
