import FlowLint.Proofs.Analysis.Cap

/-!
# Runs over units for several targets

A unit that names a target has its functions checked as in a run for that target alone (`outcomes_retargeted`). The formatters are
those of the whole program whatever targets its units name. The format check for a target is put aside when the first unit that
names the target is met, differs from the one for all other units in the target alone, and is found again for each unit that names
the target.
-/

namespace FlowLint

variable {s : Settings} {units : List SourceUnit} {u : SourceUnit}

/-! ## Units without targets -/

/-- A unit that names no target. -/
def SourceUnit.untargeted (u : SourceUnit) : SourceUnit := { u with target := none }

/-- Without targets, a program has the same functions. -/
theorem tasks_untargeted (units : List SourceUnit) :
    tasks (units.map SourceUnit.untargeted) = (tasks units).map fun t => ⟨t.unit.untargeted, t.function⟩ := by
  unfold tasks
  rw [List.flatMap_map, List.map_flatMap]
  simp only [List.map_map]
  rfl

theorem unit_mem_of_mem_tasks {t : Task} (h : t ∈ tasks units) : t.unit ∈ units := by
  obtain ⟨u, hu, ht⟩ := List.mem_flatMap.1 h
  obtain ⟨f, -, rfl⟩ := List.mem_map.1 ht
  exact hu

/-- Without targets, a program has the same formatters. -/
theorem registry_untargeted (units : List SourceUnit) :
    Format.Registry.ofUnits (units.map SourceUnit.untargeted) = .ofUnits units := by
  have hdeclarations : Format.Declarations.ofUnits (units.map SourceUnit.untargeted) = .ofUnits units := List.foldl_map
  have hknown : Format.knownEntries (units.map SourceUnit.untargeted) = Format.knownEntries units := by
    unfold Format.knownEntries
    rw [hdeclarations]
  have hfunctions : (units.map SourceUnit.untargeted).flatMap SourceUnit.functions = units.flatMap SourceUnit.functions :=
    List.flatMap_map _ _ _
  unfold Format.Registry.ofUnits Format.wrappersIn
  rw [hknown, hfunctions]

/-! ## Settings for a target -/

namespace Settings

/-- Settings with the word size, the data model and the width of `wchar_t` of a preset, if one is given. -/
def retargeted (s : Settings) : Option Preset → Settings
  | none => s
  | some p => { s with wordSize := p.model.wordSize, model := some p.model, wcharWidth := p.wcharWidth }

/-- The target of a preset is within the bounds of settings. -/
theorem preset_bounds (p : Preset) :
    (p.model.wordSize = 32 ∨ p.model.wordSize = 64) ∧ (p.wcharWidth = 2 ∨ p.wcharWidth = 4) := by
  cases p <;> decide

/-- Settings have no problem with the target of a preset if they have none with theirs. -/
theorem problem?_retargeted (h : s.problem? = none) (target : Option Preset) : (s.retargeted target).problem? = none := by
  cases target with
  | none => exact h
  | some p =>
    obtain ⟨-, -, -, hiterations, hthreads, hcap⟩ := problem?_eq_none_iff.1 h
    have hmodel : (s.retargeted (some p)).mismatch? = none := by simp [retargeted, mismatch?]
    exact problem?_eq_none_iff.2 ⟨(preset_bounds p).1, (preset_bounds p).2, hmodel, hiterations, hthreads, hcap⟩

/-- Settings that can be run can be run for each preset. -/
def Valid.retargeted (s : Settings.Valid) (target : Option Preset) : Settings.Valid where
  val := s.val.retargeted target
  property := problem?_retargeted s.property target

end Settings

/-! ## Format checks -/

namespace Checks

/-- The format check with the target of a preset. -/
def forPreset (format : Check.FormatCheck) (p : Preset) : Check.FormatCheck :=
  { format with target := (Settings.ofPreset p).target }

/-- The check put aside for a preset is the one for all other units with the target of the preset, if a unit names the preset. -/
theorem get?_foldl_retarget (format : Check.FormatCheck) (ps : List Preset) (checks : OrdMap Preset Check.FormatCheck)
    (p : Preset) :
    (ps.foldl (retarget format) checks).get? p =
      (checks.get? p <|> if p ∈ ps then some (forPreset format p) else none) := by
  induction ps generalizing checks with
  | nil => simp
  | cons q ps ih =>
    rw [List.foldl_cons, ih, retarget, OrdMap.get?_alter]
    by_cases hq : p = q
    · subst hq
      cases checks.get? p <;> simp [Std.ReflCmp.compare_self, forPreset]
    · simp [hq, Std.LawfulEqCmp.compare_eq_iff_eq]

/-- The format check for a unit is the one of a run for the target that the unit names, over whatever units. -/
theorem formatFor_ofSettings (s : Settings) (r : Format.Registry) (hu : u ∈ units) (units' : List SourceUnit) :
    (ofSettings s r units).formatFor u.target = (ofSettings (s.retargeted u.target) r units').formatFor none := by
  cases htarget : u.target with
  | none => rfl
  | some p =>
    have hp : p ∈ units.filterMap SourceUnit.target := List.mem_filterMap.2 ⟨u, hu, htarget⟩
    have hsame : (Settings.ofPreset p).target = (s.retargeted (some p)).target := rfl
    unfold formatFor ofSettings
    cases hformat : s.formatChecks with
    | false => simp [Settings.retargeted, hformat]
    | true => simp [get?_foldl_retarget, hp, forPreset, hsame, Settings.retargeted, hformat]

/-- The checks of a unit find what they find in a run for the target that the unit names. -/
theorem findings_ofSettings (s : Settings) (r : Format.Registry) (hu : u ∈ units) (units' : List SourceUnit) (g : Flow.Graph) :
    (ofSettings s r units).findings u g = (ofSettings (s.retargeted u.target) r units').findings u.untargeted g := by
  have hflow : (ofSettings (s.retargeted u.target) r units').flow = (ofSettings s r units).flow := by
    cases u.target <;> rfl
  unfold findings
  rw [formatFor_ofSettings s r hu units', hflow]
  rfl

end Checks

/-! ## Runs -/

/-- A function has the outcome that it has in a run for the target that its unit names. -/
theorem analyzeTask_ofSettings (s : Settings) (r : Format.Registry) {t : Task} (ht : t.unit ∈ units) (units' : List SourceUnit) :
    analyzeTask (.ofSettings s r units) t =
      analyzeTask (.ofSettings (s.retargeted t.unit.target) r units') ⟨t.unit.untargeted, t.function⟩ := by
  unfold analyzeTask
  cases Flow.Graph.ofFunction t.function with
  | error fault => rfl
  | ok g => exact congrArg Outcome.analyzed (Checks.findings_ofSettings s r ht units' g)

/-- Without a cap, all functions are looked at. -/
theorem outcomes_uncapped {s : Settings.Valid} (hcap : s.val.diagnosticCap = none) (units : List SourceUnit) :
    outcomes s units = (tasks units).map (outcomeIn s units) := by
  have hnone : s.val.cap = none := congrArg (Option.map UInt64.toNat) hcap
  unfold outcomes
  rw [hnone]
  exact outcomesFrom_none _ _ _

/-- In a run without a cap over units for several targets, each function has the outcome that it has in a run over the same units
without targets, with the settings of the target that its unit names, or with the same settings if it names none. -/
theorem outcomes_retargeted (s : Settings.Valid) (units : List SourceUnit) (hcap : s.val.diagnosticCap = none) {n : Nat} {t : Task}
    (ht : (tasks units)[n]? = some t) :
    (tasks (units.map SourceUnit.untargeted))[n]? = some ⟨t.unit.untargeted, t.function⟩ ∧
    ∃ o, (outcomes s units)[n]? = some o ∧
      (outcomes (s.retargeted t.unit.target) (units.map SourceUnit.untargeted))[n]? = some o := by
  have hcap' : (s.retargeted t.unit.target).val.diagnosticCap = none := by
    unfold Settings.Valid.retargeted
    cases t.unit.target <;> exact hcap
  have htask : (tasks (units.map SourceUnit.untargeted))[n]? = some ⟨t.unit.untargeted, t.function⟩ := by
    rw [tasks_untargeted, List.getElem?_map, ht]
    rfl
  refine ⟨htask, outcomeIn s units t, ?_, ?_⟩
  · rw [outcomes_uncapped hcap, List.getElem?_map, ht]
    rfl
  · have hunit : t.unit ∈ units := unit_mem_of_mem_tasks (List.mem_of_getElem? ht)
    rw [outcomes_uncapped hcap', List.getElem?_map, htask, outcomeIn, outcomeIn,
      analyzeTask_ofSettings s.val _ hunit (units.map SourceUnit.untargeted), registry_untargeted]
    rfl

/-- A function that prints a `long long` as a `long`. -/
def printsLong : Function where
  name := "f"
  span := .zero
  returnType := .void
  variadic := false
  vars := []
  blocks := [⟨0, [⟨.call ⟨some "printf", [.string ⟨.pointer (.char .char), .zero⟩ "%ld" .narrow,
    .int ⟨.int .longLong, .zero⟩ 1], .zero⟩, .zero⟩], []⟩]
  entry := 0

/-- Files with such a function, two of them for a target. -/
def mixedFiles : List SourceUnit :=
  [⟨"a.c", some .linuxX64, [], [printsLong]⟩, ⟨"b.c", some .windowsX64, [], [printsLong]⟩, ⟨"c.c", none, [], [printsLong]⟩]

/-- The standard settings with a check of widths. -/
def checkingWidths : Settings.Valid := ⟨{ Settings.standard with checkWidths := true }, by decide⟩

/-- A `long` is too narrow for a `long long` on one target only: the function of the unit for that target gets a finding, in the
mixed run and in the one for that target, but not in a run for the other one. -/
theorem outcomes_retargeted_mixedFiles :
    checkingWidths.val.diagnosticCap = none ∧
    (∃ o, (outcomes checkingWidths mixedFiles)[1]? = some o ∧
      (outcomes (checkingWidths.retargeted (some .windowsX64)) (mixedFiles.map SourceUnit.untargeted))[1]? = some o ∧
      o.findings.length = 1) ∧
    ∃ o, (outcomes checkingWidths (mixedFiles.map SourceUnit.untargeted))[1]? = some o ∧ o.findings.length = 0 := by
  have hone : ((outcomes checkingWidths mixedFiles)[1]?.map fun o => o.findings.length) = some 1 := by decide +kernel
  have hzero : ((outcomes checkingWidths (mixedFiles.map SourceUnit.untargeted))[1]?.map fun o => o.findings.length) = some 0 := by
    decide +kernel
  have htask : (tasks mixedFiles)[1]? = some ⟨⟨"b.c", some .windowsX64, [], [printsLong]⟩, printsLong⟩ := rfl
  obtain ⟨-, o, ho, hretargeted⟩ := outcomes_retargeted checkingWidths mixedFiles rfl htask
  rw [ho, Option.map_some, Option.some.injEq] at hone
  exact ⟨rfl, ⟨o, ho, hretargeted, hone⟩, Option.map_eq_some_iff.1 hzero⟩

end FlowLint
