import FlowLint.Proofs.Format.Reordering
import FlowLint.Proofs.Snapshot.Expr

/-!
# Wrappers

A name is that of a wrapper exactly if it is not declared as a formatter, it is not that of a standard function, and some variadic
definition of the name hands a parameter of its own on to a formatter that is no wrapper itself (`wrapper_iff_handsOn`).
Wrappers are looked for with the entries that declarations and standard functions make, and these are the entries of the registry
that are not of wrappers (`entryOf?_eq_known_iff`), so that the order of the functions plays no part.
-/

namespace FlowLint.Format

variable {units : List SourceUnit} {name : String} {f : Function} {inner w : Formatter} {index : Nat}

/-- The registry knows a formatter by its declarations or as a standard function. -/
def IsPrimary (units : List SourceUnit) (inner : Formatter) : Prop :=
  (Registry.ofUnits units).lookup inner.name = some (.known inner) ∧ (inner.source = .attribute ∨ inner.source = .builtin)

/-- A function hands its parameter at a position on to a formatter: somewhere in a statement, at whatever depth, the formatter is
called with the parameter as its format, through casts. -/
def HandsOn (f : Function) (inner : Formatter) (index : Nat) : Prop :=
  ∃ s ∈ f.statements, ∃ site, s.Makes site ∧ site.callee = some inner.name ∧
    ∃ arg param, site.args[inner.formatIndex]? = some arg ∧ arg.asVar = some param ∧ f.paramIndex? param = some index

/-! ## Entries that are not of wrappers -/

/-- What declarations make known of a name has that name, and is not known from a wrapper. -/
theorem Declared.known {ds : List (String × Declaration)} (h : Declared name ds (some (.known inner))) :
    inner.name = name ∧ (inner.source = .attribute ∨ inner.source = .builtin) := by
  cases h with
  | attributed _ source named _ _ => exact ⟨named, .inl source⟩
  | standard _ _ source named _ _ => exact ⟨named, .inr source⟩

/-- What declarations make known of a name is what the registry knows of it, unless that is a wrapper. -/
theorem entryOf?_eq_known_iff : entryOf? units name = some (.known inner) ↔ inner.name = name ∧ IsPrimary units inner := by
  constructor
  · intro h
    have hdeclared : Declared name (declarationsOf units name) (entryOf? units name) := declared_ofDeclarations? name _
    rw [h] at hdeclared
    obtain ⟨rfl, hsource⟩ := hdeclared.known
    exact ⟨rfl, lookup_eq_some_iff.2 (.inl h), hsource⟩
  · rintro ⟨rfl, hlookup, hsource⟩
    rcases lookup_eq_some_iff.1 hlookup with h | ⟨-, w, hw, hknown⟩
    · exact h
    · cases hknown
      obtain ⟨-, v, hv⟩ := wrapper_named hw
      rcases hsource with hsource | hsource <;> (rw [hv] at hsource; cases hsource)

/-- Declarations make nothing of a name exactly if none carries an attribute and the name is not that of a standard function. -/
theorem entryOf?_eq_none_iff : entryOf? units name = none ↔
    (∀ g ∈ builtins, g.name ≠ name) ∧ ∀ a, ¬Carries (declarationsOf units name) a := by
  have hdeclared : Declared name (declarationsOf units name) (entryOf? units name) := declared_ofDeclarations? name _
  constructor
  · intro h
    rw [h] at hdeclared
    cases hdeclared with
    | unknown plain builtin =>
      refine ⟨fun g hg hname => ?_, plain⟩
      rw [builtin?_eq_some_iff.2 ⟨hg, hname⟩] at builtin
      cases builtin
  · rintro ⟨hstandard, hplain⟩
    cases h : entryOf? units name with
    | none => rfl
    | some e =>
      rw [h] at hdeclared
      cases hdeclared with
      | disagreeing left _ _ => exact absurd left (hplain _)
      | attributed only _ _ _ _ => exact absurd ((only _).2 rfl) (hplain _)
      | standard _ builtin _ _ _ _ =>
        obtain ⟨hg, hname⟩ := builtin?_eq_some_iff.1 builtin
        exact absurd hname (hstandard _ hg)

/-! ## Functions that hand a parameter on -/

theorem forward?_eq_some_iff {known : String → Option Entry} {call : CallSite} {forward : Forward} :
    forward? known f call = some forward ↔ ∃ callee arg, call.callee = some callee ∧
      known callee = some (.known forward.inner) ∧ call.args[forward.inner.formatIndex]? = some arg ∧
      arg.asVar = some forward.param ∧ f.paramIndex? forward.param = some forward.index := by
  have hformatter : ∀ (e : Entry) (g : Formatter), e.formatter? = some g ↔ e = .known g := by
    intro e g
    cases e <;> simp [Entry.formatter?]
  simp only [forward?, Option.bind_eq_bind, Option.bind_eq_some_iff, hformatter, Option.some.injEq]
  constructor
  · rintro ⟨callee, hcallee, e, he, inner, rfl, arg, harg, param, hparam, index, hindex, rfl⟩
    exact ⟨callee, arg, hcallee, he, harg, hparam, hindex⟩
  · rintro ⟨callee, arg, hcallee, he, harg, hparam, hindex⟩
    exact ⟨callee, hcallee, _, he, _, rfl, arg, harg, _, hparam, _, hindex, rfl⟩

/-- The calls among which a wrapper is looked for include one that hands a parameter on exactly if the function does that. -/
theorem exists_forward?_iff : (∃ call ∈ f.statements.flatMap Statement.calls, ∃ forward,
      forward? (entryOf? units) f call = some forward ∧ forward.inner = inner ∧ forward.index = index) ↔
    IsPrimary units inner ∧ HandsOn f inner index := by
  simp only [forward?_eq_some_iff, entryOf?_eq_known_iff, List.mem_flatMap, Statement.mem_calls_iff]
  constructor
  · rintro ⟨call, ⟨s, hs, hmakes⟩, forward, ⟨_, arg, hcallee, ⟨rfl, hprimary⟩, harg, hparam, hindex⟩, rfl, rfl⟩
    exact ⟨hprimary, s, hs, call, hmakes, hcallee, arg, _, harg, hparam, hindex⟩
  · rintro ⟨hprimary, s, hs, call, hmakes, hcallee, arg, param, harg, hparam, hindex⟩
    refine ⟨call, ⟨s, hs, hmakes⟩, ⟨inner, param, index⟩, ?_, rfl, rfl⟩
    exact ⟨_, arg, hcallee, ⟨rfl, hprimary⟩, harg, hparam, hindex⟩

theorem paramIndex?_lt {v : VarId} (h : f.paramIndex? v = some index) : index < f.params.length := by
  obtain ⟨hlt, -⟩ := List.findIdx?_eq_some_iff_getElem.1 h
  exact hlt

theorem HandsOn.lt (h : HandsOn f inner index) : index < f.params.length := by
  obtain ⟨_, -, _, -, -, _, _, -, -, hindex⟩ := h
  exact paramIndex?_lt hindex

/-- A wrapper describes a variadic function that hands a parameter on. -/
theorem handsOn_of_wrapper? (h : wrapper? (entryOf? units) f = some w) :
    f.variadic = true ∧ w.firstArg = some f.params.length ∧
      ∃ inner, w.source = .wrapper inner.name ∧ IsPrimary units inner ∧ HandsOn f inner w.formatIndex := by
  unfold wrapper? at h
  split at h
  · rename_i hvariadic
    obtain ⟨forward, hforward, rfl⟩ := Option.map_eq_some_iff.1 h
    obtain ⟨call, hcall, hforward⟩ := List.exists_of_findSome?_eq_some hforward
    obtain ⟨hprimary, hhands⟩ := exists_forward?_iff.1 ⟨call, hcall, forward, hforward, rfl, rfl⟩
    exact ⟨hvariadic, rfl, forward.inner, rfl, hprimary, hhands⟩
  · cases h

/-- A variadic function that hands a parameter on is a wrapper. -/
theorem isSome_wrapper?_of_handsOn (hvariadic : f.variadic = true) (hprimary : IsPrimary units inner)
    (hhands : HandsOn f inner index) : (wrapper? (entryOf? units) f).isSome = true := by
  obtain ⟨call, hcall, forward, hforward, -, -⟩ := exists_forward?_iff.2 ⟨hprimary, hhands⟩
  unfold wrapper?
  rw [if_pos hvariadic, Option.isSome_map, List.findSome?_isSome_iff]
  exact ⟨call, hcall, by rw [hforward]; rfl⟩

/-! ## Wrappers of a program -/

/-- What is known as a wrapper comes from a function of the name, and the name has no entry by declarations. -/
theorem lookup_eq_wrapper_iff {v : String} :
    (Registry.ofUnits units).lookup name = some (.known w) ∧ w.source = .wrapper v ↔ entryOf? units name = none ∧
      (functionsNamed units name).findSome? (wrapper? (entryOf? units)) = some w ∧ w.source = .wrapper v := by
  rw [lookup_eq_some_iff, ← and_assoc, and_congr_left_iff]
  intro hv
  constructor
  · rintro (h | ⟨hnone, _, hw, ⟨⟩⟩)
    · obtain ⟨-, -, hsource⟩ := entryOf?_eq_known_iff.1 h
      rcases hsource with hsource | hsource <;> (rw [hv] at hsource; cases hsource)
    · exact ⟨hnone, hw⟩
  · rintro ⟨hnone, hw⟩
    exact .inr ⟨hnone, w, hw, rfl⟩

theorem mem_functionsNamed : f ∈ functionsNamed units name ↔ f ∈ units.flatMap SourceUnit.functions ∧ f.name = name := by
  rw [functionsNamed, List.mem_filter, beq_iff_eq]

/-- Wrappers are found exactly where they are, and one level deep. A name is known as a wrapper exactly if it is not that of a
standard function, its declarations carry no attribute, and a variadic definition of the name hands a parameter of its own on to
a formatter that is known by declarations or as a standard function. What a wrapper is said to wrap is such a formatter, never
another wrapper; it gets the parameter at the position of the wrapper's format from a variadic definition of the name, and the
arguments that are formatted start behind the parameters of that definition. -/
theorem wrapper_iff_handsOn (units : List SourceUnit) :
    (∀ name, (∃ w v, (Registry.ofUnits units).lookup name = some (.known w) ∧ w.source = .wrapper v) ↔
      (∀ g ∈ builtins, g.name ≠ name) ∧ (∀ a, ¬Carries (declarationsOf units name) a) ∧
        ∃ f ∈ units.flatMap SourceUnit.functions, f.name = name ∧ f.variadic = true ∧
          ∃ inner index, IsPrimary units inner ∧ HandsOn f inner index) ∧
    ∀ name w v, (Registry.ofUnits units).lookup name = some (.known w) → w.source = .wrapper v →
      ∃ inner, inner.name = v ∧ IsPrimary units inner ∧
        ∃ f ∈ units.flatMap SourceUnit.functions, f.name = name ∧ f.variadic = true ∧ HandsOn f inner w.formatIndex ∧
          w.formatIndex < f.params.length ∧ w.firstArg = some f.params.length := by
  have hentry : ∀ name w v, (Registry.ofUnits units).lookup name = some (.known w) → w.source = .wrapper v →
      ∃ inner, inner.name = v ∧ IsPrimary units inner ∧
        ∃ f ∈ units.flatMap SourceUnit.functions, f.name = name ∧ f.variadic = true ∧ HandsOn f inner w.formatIndex ∧
          w.formatIndex < f.params.length ∧ w.firstArg = some f.params.length := by
    intro name w v hlookup hv
    obtain ⟨-, hw, -⟩ := lookup_eq_wrapper_iff.1 ⟨hlookup, hv⟩
    obtain ⟨f, hf, hw⟩ := List.exists_of_findSome?_eq_some hw
    obtain ⟨hf, hname⟩ := mem_functionsNamed.1 hf
    obtain ⟨hvariadic, hfirst, inner, hsource, hprimary, hhands⟩ := handsOn_of_wrapper? hw
    rw [hv, FormatterSource.wrapper.injEq] at hsource
    exact ⟨inner, hsource.symm, hprimary, f, hf, hname, hvariadic, hhands, hhands.lt, hfirst⟩
  refine ⟨fun name => ⟨?_, ?_⟩, hentry⟩
  · rintro ⟨w, v, hlookup, hv⟩
    obtain ⟨hstandard, hplain⟩ := entryOf?_eq_none_iff.1 (lookup_eq_wrapper_iff.1 ⟨hlookup, hv⟩).1
    obtain ⟨inner, -, hprimary, f, hf, hname, hvariadic, hhands, -, -⟩ := hentry name w v hlookup hv
    exact ⟨hstandard, hplain, f, hf, hname, hvariadic, inner, _, hprimary, hhands⟩
  · rintro ⟨hstandard, hplain, f, hf, hname, hvariadic, inner, index, hprimary, hhands⟩
    have hwrapper := isSome_wrapper?_of_handsOn hvariadic hprimary hhands
    have hsome : ((functionsNamed units name).findSome? (wrapper? (entryOf? units))).isSome = true :=
      List.findSome?_isSome_iff.2 ⟨f, mem_functionsNamed.2 ⟨hf, hname⟩, hwrapper⟩
    obtain ⟨w, hw⟩ := Option.isSome_iff_exists.1 hsome
    obtain ⟨-, v, hv⟩ := wrapper_named hw
    obtain ⟨hlookup, -⟩ := lookup_eq_wrapper_iff.2 ⟨entryOf?_eq_none_iff.2 ⟨hstandard, hplain⟩, hw, hv⟩
    exact ⟨w, v, hlookup, hv⟩

/-- A variadic function of a level and a format that hands the format on, behind a cast and in the operand of an assigned
value. -/
def forwarder (name callee : String) : Function where
  name := name
  span := .zero
  returnType := .void
  variadic := true
  vars := [⟨0, "level", .int .int, .automatic, .param, false, .zero⟩,
    ⟨1, "format", .pointer (.char .char), .automatic, .param, false, .zero⟩,
    ⟨2, "written", .int .int, .automatic, .localVar, false, .zero⟩]
  blocks :=
    let format : Expr := .cast ⟨.pointer .void, .zero⟩ (.var ⟨.pointer (.char .char), .zero⟩ 1)
    let result : Expr := .unary ⟨.int .int, .zero⟩ .neg (.call ⟨.int .int, .zero⟩ (some callee) [format] .zero)
    [⟨0, [⟨.assign (.var ⟨.int .int, .zero⟩ 2) result, .zero⟩], []⟩]
  entry := 0

/-- A function that calls a wrapper, and the wrapper. -/
def twoLevels : List SourceUnit := [⟨"a.c", none, [], [forwarder "outer" "inner", forwarder "inner" "vprintf"]⟩]

/-- The function that hands its format on to a standard one is a wrapper, and the one that hands it on to the wrapper is not. -/
theorem wrapper_twoLevels :
    (∃ w, (Registry.ofUnits twoLevels).lookup "inner" = some (.known w) ∧ w.source = .wrapper "vprintf" ∧
      ∃ f ∈ twoLevels.flatMap SourceUnit.functions, f.name = "inner" ∧ w.formatIndex < f.params.length ∧
        w.firstArg = some f.params.length) ∧
    ¬∃ f ∈ twoLevels.flatMap SourceUnit.functions, f.name = "outer" ∧ f.variadic = true ∧
      ∃ inner index, IsPrimary twoLevels inner ∧ HandsOn f inner index := by
  have hinner : (Registry.ofUnits twoLevels).lookup "inner" =
      some (.known ⟨"inner", 1, some 2, .narrow, .wrapper "vprintf"⟩) := by decide +kernel
  have houter : (Registry.ofUnits twoLevels).lookup "outer" = none := by decide +kernel
  have hstandard : ∀ g ∈ builtins, g.name ≠ "outer" := by decide
  have hplain : ∀ a, ¬Carries (declarationsOf twoLevels "outer") a := by
    rintro a ⟨d, hd, -⟩
    exact absurd hd List.not_mem_nil
  obtain ⟨hiff, hentry⟩ := wrapper_iff_handsOn twoLevels
  constructor
  · obtain ⟨inner, -, -, f, hf, hname, -, -, hlt, hfirst⟩ := hentry "inner" _ "vprintf" hinner rfl
    exact ⟨_, hinner, rfl, f, hf, hname, hlt, hfirst⟩
  · intro hhands
    obtain ⟨w, v, hlookup, -⟩ := (hiff "outer").2 ⟨hstandard, hplain, hhands⟩
    rw [houter] at hlookup
    cases hlookup

end FlowLint.Format
