import FlowLint.Proofs.Analysis.Targets
import FlowLint.Proofs.Flow.Faults
import FlowLint.Proofs.Format.Registry

/-!
# Functions with faults among others

A function with a fault is reported and does not stop the run, but its body is looked at before its faults are: it may be a wrapper,
and then its name has a formatter. Two runs are compared, with such a function and without it. What is found in another function
looks up the name that this one has and those that it calls (`findings_congr`), so that it is the same in both unless the function
with the fault gives the formatter of one of these names (`outcomes_fill_malformed`).
-/

namespace FlowLint

open FlowLint.Format

/-! ## Names that are looked up -/

/-- A function has a name, or it calls what has it. -/
def Function.Mentions (f : Function) (name : String) : Prop :=
  f.name = name ∨ ∃ x ∈ f.statements, ∃ c ∈ x.calls, c.callee = some name

namespace Check.FormatCheck

variable {k : FormatCheck} {r : Registry}

theorem handsOnFormat_congr {f : Function} (h : k.registry.lookup f.name = r.lookup f.name) (e : Expr) :
    k.handsOnFormat f e = { k with registry := r }.handsOnFormat f e := by
  have hformatter : k.registry.formatter? f.name = r.formatter? f.name := congrArg (·.bind Entry.formatter?) h
  unfold handsOnFormat
  rw [hformatter]

/-- The check of a call of a formatter looks up the name of the calling function. -/
theorem formatterFindings_congr {c : Call} (h : k.registry.lookup c.subject.function.name = r.lookup c.subject.function.name)
    (f : Formatter) : k.formatterFindings c f = { k with registry := r }.formatterFindings c f := by
  unfold formatterFindings
  simp only [handsOnFormat_congr h]
  rfl

/-- The check of a function looks up the names that the function mentions. -/
theorem findings_congr {s : Subject} (h : ∀ name, s.function.Mentions name → k.registry.lookup name = r.lookup name) :
    k.findings s = { k with registry := r }.findings s := by
  unfold findings
  refine List.flatMap_congr fun x hx => List.flatMap_congr fun c hc => ?_
  unfold callFindings
  cases hcallee : c.callee with
  | none => rfl
  | some callee =>
    dsimp only
    rw [h callee (.inr ⟨x, hx, c, hc, hcallee⟩)]
    cases r.lookup callee with
    | none => rfl
    | some entry =>
      cases entry with
      | ambiguous declarations => rfl
      | known f => exact formatterFindings_congr (h _ (.inl rfl)) f

end Check.FormatCheck

variable {s : Settings} {r r' : Registry} {units units' : List SourceUnit}

/-- The checks of a unit for the target of a unit of the program. -/
theorem Checks.formatFor_of_target {target : Option Preset} (h : ∃ u ∈ units, u.target = target) :
    (ofSettings s r units).formatFor target = (ofSettings (s.retargeted target) r []).format := by
  obtain ⟨u, hu, rfl⟩ := h
  exact formatFor_ofSettings s r hu []

/-- In two programs that have units for the target of a function, it has the same outcome if what it mentions is known as the same,
or if formats are not checked. -/
theorem analyzeTask_congr {t : Task} (ht : ∃ u ∈ units, u.target = t.unit.target) (ht' : ∃ u ∈ units', u.target = t.unit.target)
    (h : s.formatChecks = true → ∀ name, t.function.Mentions name → r.lookup name = r'.lookup name) :
    analyzeTask (.ofSettings s r units) t = analyzeTask (.ofSettings s r' units') t := by
  unfold analyzeTask
  cases hg : Flow.Graph.ofFunction t.function with
  | error fault => rfl
  | ok g =>
    have hfunction : g.function = t.function := Flow.Graph.ofFunction_eq_ok_iff.1 hg
    have hchecks : (s.retargeted t.unit.target).formatChecks = s.formatChecks := by
      cases t.unit.target <;> rfl
    dsimp only
    unfold Checks.findings
    rw [Checks.formatFor_of_target ht, Checks.formatFor_of_target ht']
    refine congrArg Outcome.analyzed (congrArg (· ++ _) ?_)
    dsimp only [Checks.ofSettings]
    rw [hchecks]
    cases hformat : s.formatChecks with
    | false => rfl
    | true =>
      exact Check.FormatCheck.findings_congr (s := ⟨t.unit.file, g.function⟩) fun name hname => h hformat name (hfunction ▸ hname)

/-! ## Programs with and without a function -/

/-- A program with a gap among the functions of one of its units: the units in front of that one, the unit, whose own list of functions
does not matter, its functions in front of the gap and behind it, and the units behind. -/
structure Gap where
  before : List SourceUnit
  unit : SourceUnit
  earlier : List Function
  later : List Function
  after : List SourceUnit

namespace Gap

variable {p : Gap} {f : Function} {fs : List Function} {name : String}

/-- The program with functions in the gap. -/
def fill (p : Gap) (fs : List Function) : List SourceUnit :=
  p.before ++ { p.unit with functions := p.earlier ++ fs ++ p.later } :: p.after

/-- The functions in front of the gap. -/
def inFront (p : Gap) : List Task := tasks p.before ++ p.earlier.map fun f => ⟨p.unit, f⟩

/-- The functions behind the gap. -/
def behind (p : Gap) : List Task := (p.later.map fun f => ⟨p.unit, f⟩) ++ tasks p.after

/-- The functions in front of a gap, those in it and those behind it. -/
theorem functions_fill (p : Gap) (fs : List Function) :
    (p.fill fs).flatMap SourceUnit.functions = p.inFront.map Task.function ++ fs ++ p.behind.map Task.function := by
  have htasks : ∀ units : List SourceUnit, (tasks units).map Task.function = units.flatMap SourceUnit.functions := by
    intro units
    simp [tasks, List.map_flatMap, Function.comp_def]
  simp [fill, inFront, behind, htasks, Function.comp_def]

/-- The outcomes for the functions in front of a gap, for those in it and for those behind it. -/
theorem outcomes_fill {s : Settings.Valid} (hcap : s.val.diagnosticCap = none) (p : Gap) (fs : List Function) :
    outcomes s (p.fill fs) = p.inFront.map (outcomeIn s (p.fill fs)) ++ (fs.map fun f => outcomeIn s (p.fill fs) ⟨p.unit, f⟩) ++
      p.behind.map (outcomeIn s (p.fill fs)) := by
  have hunit : ∀ (l : List Function) (f : Function),
      outcomeIn s (p.fill fs) ⟨⟨p.unit.file, p.unit.target, p.unit.symbols, l⟩, f⟩ = outcomeIn s (p.fill fs) ⟨p.unit, f⟩ :=
    fun _ _ => rfl
  rw [outcomes_uncapped hcap]
  generalize outcomeIn s (p.fill fs) = o at hunit ⊢
  simp [fill, tasks, inFront, behind, Function.comp_def, hunit]

/-- The units around a gap have the targets that the functions around it are checked for. -/
theorem exists_target_of_mem {t : Task} (ht : t ∈ p.inFront ++ p.behind) (fs : List Function) :
    ∃ u ∈ p.fill fs, u.target = t.unit.target := by
  have hunit : ∃ u ∈ p.fill fs, u.target = p.unit.target := ⟨_, List.mem_append_right _ List.mem_cons_self, rfl⟩
  rcases List.mem_append.1 ht with ht | ht
  · rcases List.mem_append.1 ht with ht | ht
    · exact ⟨t.unit, List.mem_append_left _ (unit_mem_of_mem_tasks ht), rfl⟩
    · obtain ⟨f, -, rfl⟩ := List.mem_map.1 ht
      exact hunit
  · rcases List.mem_append.1 ht with ht | ht
    · obtain ⟨f, -, rfl⟩ := List.mem_map.1 ht
      exact hunit
    · exact ⟨t.unit, List.mem_append_right _ (List.mem_cons_of_mem _ (unit_mem_of_mem_tasks ht)), rfl⟩

/-! ## Formatters -/

theorem declarationsOf_fill (p : Gap) (fs : List Function) (name : String) :
    declarationsOf (p.fill fs) name = declarationsOf (p.fill []) name := by
  simp [declarationsOf, fill]

/-- The formatter of a name that the first wrapper among functions gives it. -/
def wrapperAmong? (p : Gap) (name : String) (fs : List Function) : Option Formatter :=
  (fs.filter fun f => f.name == name).findSome? (wrapper? (entryOf? (p.fill [])))

/-- A function in a gap gives its name the formatter: the name has none by its declarations or as a standard one, no function of the
name in front of the gap is a wrapper, the function is one, and the first wrapper behind does not come to the same. -/
structure GivesFormatter (p : Gap) (f : Function) : Prop where
  unknown : entryOf? (p.fill []) f.name = none
  first : p.wrapperAmong? f.name (p.inFront.map Task.function) = none
  wrapper : ∃ w, wrapper? (entryOf? (p.fill [])) f = some w ∧ p.wrapperAmong? f.name (p.behind.map Task.function) ≠ some w

/-- What is known of a name with functions in a gap. -/
theorem lookup_fill (p : Gap) (fs : List Function) (name : String) :
    (Registry.ofUnits (p.fill fs)).lookup name = (entryOf? (p.fill []) name <|>
      (p.wrapperAmong? name (p.inFront.map Task.function) <|> p.wrapperAmong? name fs <|>
        p.wrapperAmong? name (p.behind.map Task.function)).map .known) := by
  have hentry : entryOf? (p.fill fs) = entryOf? (p.fill []) := by
    funext name
    unfold entryOf?
    rw [declarationsOf_fill]
  rw [lookup_ofUnits, functionsNamed, functions_fill, hentry]
  simp only [List.filter_append, List.findSome?_append, wrapperAmong?, Option.orElse_eq_or, Option.orElse_eq_orElse, Option.or_assoc]

/-- Another name is known as the same with and without a function in a gap. -/
theorem lookup_fill_of_ne (h : f.name ≠ name) :
    (Registry.ofUnits (p.fill [f])).lookup name = (Registry.ofUnits (p.fill [])).lookup name := by
  rw [lookup_fill, lookup_fill]
  simp [wrapperAmong?, h]

/-- The name of a function in a gap is known as the same without it exactly if the function does not give it the formatter. -/
theorem lookup_fill_iff :
    (Registry.ofUnits (p.fill [f])).lookup f.name = (Registry.ofUnits (p.fill [])).lookup f.name ↔ ¬p.GivesFormatter f := by
  have hself : p.wrapperAmong? f.name [f] = wrapper? (entryOf? (p.fill [])) f := by
    simp [wrapperAmong?]
  have hnone : p.wrapperAmong? f.name [] = none := rfl
  rw [lookup_fill, lookup_fill, hself, hnone]
  constructor
  · rintro h ⟨hunknown, hfirst, w, hw, hdiffers⟩
    rw [hunknown, hfirst, hw] at h
    obtain ⟨w', hw', heq⟩ := Option.map_eq_some_iff.1 h.symm
    rw [Entry.known.injEq] at heq
    exact hdiffers (heq ▸ hw')
  · intro h
    cases hunknown : entryOf? (p.fill []) f.name with
    | some _ => rfl
    | none =>
      cases hfirst : p.wrapperAmong? f.name (p.inFront.map Task.function) with
      | some _ => rfl
      | none =>
        cases hw : wrapper? (entryOf? (p.fill [])) f with
        | none => rfl
        | some w =>
          have hsame : p.wrapperAmong? f.name (p.behind.map Task.function) = some w :=
            Classical.not_not.1 fun hdiffers => h ⟨hunknown, hfirst, w, hw, hdiffers⟩
          rw [hsame]
          rfl

end Gap

/-! ## Reports -/

section

variable {α : Type} {le : α → α → Bool} (htrans : ∀ a b c, le a b = true → le b c = true → le a c = true)
  (htotal : ∀ a b, (le a b || le b a) = true)

include htrans htotal

/-- In order, the first of a list stands behind all that belongs in front of it, and in front of all that is not. -/
theorem mergeSort_cons_eq_filter (x : α) (l : List α) :
    (x :: l).mergeSort le = ((l.mergeSort le).filter fun y => !le x y) ++ x :: (l.mergeSort le).filter (le x) := by
  obtain ⟨a, b, hcons, hl, ha⟩ := List.mergeSort_cons htrans htotal x l
  have hb : ∀ y ∈ b, le x y = true := by
    have hsorted := List.pairwise_mergeSort htrans htotal (x :: l)
    rw [hcons, List.pairwise_append] at hsorted
    exact (List.pairwise_cons.1 hsorted.2.1).1
  have ha' : ∀ y ∈ a, ¬le x y = true := fun y hy => by simpa using ha y hy
  have hb' : ∀ y ∈ b, ¬(!le x y) = true := fun y hy => by simp [hb y hy]
  rw [hcons, hl, List.filter_append, List.filter_append, List.filter_eq_self.2 ha, List.filter_eq_nil_iff.2 hb', List.append_nil,
    List.filter_eq_nil_iff.2 ha', List.filter_eq_self.2 hb, List.nil_append]

/-- In order, what is put into a list is put in between the others. -/
theorem mergeSort_insert (x : α) (l l' : List α) :
    ∃ a b, (l ++ l').mergeSort le = a ++ b ∧ (l ++ x :: l').mergeSort le = a ++ x :: b := by
  induction l with
  | nil =>
    obtain ⟨a, b, hwith, hwithout, -⟩ := List.mergeSort_cons htrans htotal x l'
    exact ⟨a, b, hwithout, hwith⟩
  | cons y l ih =>
    obtain ⟨a, b, hwithout, hwith⟩ := ih
    rw [List.cons_append, List.cons_append, mergeSort_cons_eq_filter htrans htotal, mergeSort_cons_eq_filter htrans htotal,
      hwithout, hwith]
    simp only [List.filter_append]
    cases hx : le y x with
    | true =>
      refine ⟨a.filter (fun z => !le y z) ++ b.filter (fun z => !le y z) ++ y :: a.filter (le y), b.filter (le y), ?_, ?_⟩
      · simp
      · simp [hx]
    | false =>
      refine ⟨a.filter fun z => !le y z, b.filter (fun z => !le y z) ++ y :: (a.filter (le y) ++ b.filter (le y)), ?_, ?_⟩
      · simp
      · simp [hx]

end

/-- Failures are listed in order, and one more is put in between them. -/
theorem failureLog_insert (l l' : List Failure) (x : Failure) :
    ∃ a b, failureLog (l ++ l') = a ++ b ∧ failureLog (l ++ x :: l') = a ++ x :: b :=
  mergeSort_insert (fun _ _ _ => Std.TransCmp.isLE_trans) isLE_total x l l'

namespace Report

/-- A report says what another one says, and the outcome for one more function, which has failed. -/
structure Gains (r r' : Report) (o : Outcome) : Prop where
  diagnostics : r'.diagnostics = canonical (o.findings ++ r.diagnostics)
  analyzed : r'.analyzed = r.analyzed
  failed : r'.failed = r.failed + 1
  skipped : r'.skipped = r.skipped
  truncated : r'.truncated = r.truncated
  failures : ∃ a b, r.failures = a ++ b ∧ r'.failures = a ++ o.failure?.toList ++ b

/-- The report on outcomes with a failure among them. -/
theorem gains_ofOutcomes (pre post : List Outcome) (finding : Diagnostic) (failure : Failure) :
    Gains (.ofOutcomes none (pre ++ post)) (.ofOutcomes none (pre ++ .failed finding failure :: post)) (.failed finding failure) where
  diagnostics := by
    refine congrArg OrdSet.toList (OrdSet.ext fun d => ?_)
    rw [OrdSet.mem_ofList, OrdSet.mem_ofList, List.mem_append]
    change _ ↔ _ ∨ d ∈ canonical _
    rw [mem_canonical]
    simp only [List.flatMap_append, List.flatMap_cons, List.mem_append]
    exact or_left_comm
  analyzed := by simp [ofOutcomes, Outcome.isAnalyzed]
  failed := by
    simp [ofOutcomes, Outcome.failure?]
    omega
  skipped := by simp [ofOutcomes, Outcome.isSkipped]
  truncated := by simp [ofOutcomes, Outcome.isSkipped]
  failures := by
    obtain ⟨a, b, hwithout, hwith⟩ := failureLog_insert (pre.filterMap Outcome.failure?) (post.filterMap Outcome.failure?) failure
    refine ⟨a, b, ?_, ?_⟩
    · simpa [ofOutcomes] using hwithout
    · simpa [ofOutcomes, Outcome.failure?] using hwith

end Report

/-! ## Two runs -/

namespace Gap

variable {p : Gap} {f : Function}

/-- What is found in a function may hang on the one in the gap: formats are checked, the function in the gap gives its name the
formatter, and the other one has that name or calls it. -/
def Affects (p : Gap) (s : Settings) (f : Function) (t : Task) : Prop :=
  s.formatChecks = true ∧ p.GivesFormatter f ∧ t.function.Mentions f.name

/-- A function that is not affected has the same outcome with and without the one in the gap. -/
theorem outcomeIn_fill {s : Settings.Valid} {t : Task} (ht : t ∈ p.inFront ++ p.behind) (h : ¬p.Affects s.val f t) :
    outcomeIn s (p.fill [f]) t = outcomeIn s (p.fill []) t := by
  refine analyzeTask_congr (exists_target_of_mem ht _) (exists_target_of_mem ht _) fun hformat name hname => ?_
  by_cases hf : f.name = name
  · subst hf
    exact lookup_fill_iff.2 fun hgives => h ⟨hformat, hgives, hname⟩
  · exact lookup_fill_of_ne hf

end Gap

/-- Without a cap, a function with a fault has its own outcome and takes none away; each other function has the outcome that it has
without it, unless the function with the fault gives the formatter of a name that the other one has or calls. If no other function
is affected in this way, the report only gains the finding, the failure and the count of the function with the fault. -/
theorem outcomes_fill_malformed (s : Settings.Valid) (hcap : s.val.diagnosticCap = none) (p : Gap) {f : Function}
    {fault : Flow.Fault} (hf : Flow.Graph.ofFunction f = .error fault) :
    outcomes s (p.fill [f]) = p.inFront.map (outcomeIn s (p.fill [f])) ++
      faultOutcome ⟨p.unit, f⟩ fault :: p.behind.map (outcomeIn s (p.fill [f])) ∧
    outcomes s (p.fill []) = p.inFront.map (outcomeIn s (p.fill [])) ++ p.behind.map (outcomeIn s (p.fill [])) ∧
    (∀ t ∈ p.inFront ++ p.behind, ¬p.Affects s.val f t → outcomeIn s (p.fill [f]) t = outcomeIn s (p.fill []) t) ∧
    ((∀ t ∈ p.inFront ++ p.behind, ¬p.Affects s.val f t) →
      (analyze s (p.fill [])).Gains (analyze s (p.fill [f])) (faultOutcome ⟨p.unit, f⟩ fault)) := by
  have hown : outcomeIn s (p.fill [f]) ⟨p.unit, f⟩ = faultOutcome ⟨p.unit, f⟩ fault := by
    unfold outcomeIn analyzeTask
    rw [hf]
  have hwith := Gap.outcomes_fill hcap p [f]
  have hwithout := Gap.outcomes_fill hcap p []
  rw [List.map_singleton, hown, List.append_assoc, List.singleton_append] at hwith
  rw [List.map_nil, List.append_nil] at hwithout
  refine ⟨hwith, hwithout, fun t ht h => Gap.outcomeIn_fill ht h, fun h => ?_⟩
  -- if nothing is affected, the two lists of outcomes differ in the failure alone
  have hnone : s.val.cap = none := congrArg (Option.map UInt64.toNat) hcap
  have hinFront : p.inFront.map (outcomeIn s (p.fill [f])) = p.inFront.map (outcomeIn s (p.fill [])) :=
    List.map_congr_left fun t ht => Gap.outcomeIn_fill (List.mem_append_left _ ht) (h t (List.mem_append_left _ ht))
  have hbehind : p.behind.map (outcomeIn s (p.fill [f])) = p.behind.map (outcomeIn s (p.fill [])) :=
    List.map_congr_left fun t ht => Gap.outcomeIn_fill (List.mem_append_right _ ht) (h t (List.mem_append_right _ ht))
  unfold analyze
  rw [hnone, hwith, hwithout, hinFront, hbehind]
  exact Report.gains_ofOutcomes _ _ _ _

/-- A function that hands its second parameter on to `printf` as a format, with the number of the first one given to both. -/
def brokenLog : Function where
  name := "log"
  span := .zero
  returnType := .void
  variadic := true
  vars := [⟨0, "context", .pointer .void, .automatic, .param, false, .zero⟩,
    ⟨0, "format", .pointer (.char .char), .automatic, .param, false, .zero⟩]
  blocks := [⟨0, [⟨.call ⟨some "printf", [.var ⟨.pointer (.char .char), .zero⟩ 0], .zero⟩, .zero⟩], []⟩]
  entry := 0

/-- A function that prints an `int` through `log`. -/
def callsLog : Function where
  name := "g"
  span := .zero
  returnType := .void
  variadic := false
  vars := []
  blocks := [⟨0, [⟨.call ⟨some "log", [.nullptr ⟨.nullptr, .zero⟩, .string ⟨.pointer (.char .char), .zero⟩ "%d" .narrow,
    .int ⟨.int .int, .zero⟩ 1], .zero⟩, .zero⟩], []⟩]
  entry := 0

/-- A file with such a call and a function that leaks its array, which may declare `log` with an attribute. The gap is in front of
both functions. -/
def logGap (declared : Bool) : Gap where
  before := []
  unit := ⟨"a.c", none,
    if declared then [⟨"log", [⟨[.pointer .void, .pointer (.char .char)], true, some ⟨1, some 2⟩, .zero⟩]⟩] else [], []⟩
  earlier := []
  later := [callsLog, returnsArray]
  after := []

/-- The standard settings. -/
def standardSettings : Settings.Valid := ⟨.standard, by decide⟩

/-- If `log` is declared, its broken definition adds its own finding to that of the leak. -/
theorem outcomes_logGap_declared :
    standardSettings.val.diagnosticCap = none ∧ Flow.Graph.ofFunction brokenLog = .error (.duplicateVariable 0) ∧
      (analyze standardSettings ((logGap true).fill [])).Gains (analyze standardSettings ((logGap true).fill [brokenLog]))
        (faultOutcome ⟨(logGap true).unit, brokenLog⟩ (.duplicateVariable 0)) ∧
      (analyze standardSettings ((logGap true).fill [])).diagnostics.length = 1 ∧
      (analyze standardSettings ((logGap true).fill [brokenLog])).diagnostics.length = 2 := by
  have hf : Flow.Graph.ofFunction brokenLog = .error (.duplicateVariable 0) := rfl
  have hknown : (entryOf? ((logGap true).fill []) "log").isSome = true := by decide +kernel
  obtain ⟨-, -, -, hgains⟩ := outcomes_fill_malformed standardSettings rfl (logGap true) hf
  refine ⟨rfl, hf, hgains fun t _ ⟨_, hgives, _⟩ => ?_, by decide +kernel, by decide +kernel⟩
  have hunknown : entryOf? ((logGap true).fill []) "log" = none := hgives.unknown
  rw [hunknown] at hknown
  cases hknown

/-- If it is not, the broken definition is taken for a wrapper whose format is its first parameter, and the call, in which nothing is
wrong, gets a finding that it does not have without that definition. -/
theorem findings_logGap_undeclared :
    standardSettings.val.diagnosticCap = none ∧ Flow.Graph.ofFunction brokenLog = .error (.duplicateVariable 0) ∧
      (outcomeIn standardSettings ((logGap false).fill [brokenLog]) ⟨(logGap false).unit, callsLog⟩).findings.length = 1 ∧
      (outcomeIn standardSettings ((logGap false).fill []) ⟨(logGap false).unit, callsLog⟩).findings.length = 0 ∧
      (analyze standardSettings ((logGap false).fill [brokenLog])).diagnostics.length = 3 ∧
      (analyze standardSettings ((logGap false).fill [])).diagnostics.length = 1 := by
  have hf : Flow.Graph.ofFunction brokenLog = .error (.duplicateVariable 0) := rfl
  exact ⟨rfl, hf, by decide +kernel, by decide +kernel, by decide +kernel, by decide +kernel⟩

end FlowLint
