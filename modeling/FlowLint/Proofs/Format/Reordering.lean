import Mathlib.Data.List.Forall2
import Mathlib.Data.List.Perm.Basic
import FlowLint.Proofs.Format.Registry

/-!
# Registries and the order of a program

What a registry knows of a name does not depend on the order in which a program is given: the order of its units, of the symbols
in a unit, of the declarations of a symbol, and of the functions in a unit (`classification_reordered`). The declarations of a
name are the same in any order, so that the same attributes are found among them. Which function of a name is a wrapper depends on
the known formatters through the position of their formats alone, so that a name without an entry gets a wrapper in each order or
in none; which one may differ, and with it the places of its arguments. The encoding of a format may differ as well, as it is that of
the first declaration that gives one.
-/

namespace FlowLint

/-! ## Reorderings -/

/-- The elements of a list, each replaced by a related one, in any order. -/
def Rearranged {α : Type} (r : α → α → Prop) (l m : List α) : Prop := ∃ k, l.Perm k ∧ List.Forall₂ r k m

/-- Lists that are put together from the elements of a list agree up to order. -/
theorem Rearranged.flatMap_perm {α β : Type} {r : α → α → Prop} {l m : List α} {f g : α → List β} (h : Rearranged r l m)
    (hfg : ∀ a b, r a b → (f a).Perm (g b)) : (l.flatMap f).Perm (m.flatMap g) := by
  obtain ⟨k, hlk, hkm⟩ := h
  refine (hlk.flatMap_right f).trans ?_
  induction hkm generalizing l with
  | nil => exact .nil
  | cons hab _ ih => exact (hfg _ _ hab).append (ih (.refl _))

/-- The same symbol with its declarations in another order. -/
structure DeclaredSymbol.Reorders (s t : DeclaredSymbol) : Prop where
  name : s.name = t.name
  declarations : s.declarations.Perm t.declarations

/-- The same unit with its symbols, their declarations and its functions in another order. -/
structure SourceUnit.Reorders (u v : SourceUnit) : Prop where
  file : u.file = v.file
  target : u.target = v.target
  symbols : Rearranged DeclaredSymbol.Reorders u.symbols v.symbols
  functions : u.functions.Perm v.functions

namespace Format

variable {units units' : List SourceUnit} {name : String} {a : FormatAttribute} {ds ds' : List (String × Declaration)}

/-- A name has the same declarations in each order. -/
theorem declarationsOf_perm (h : Rearranged SourceUnit.Reorders units units') (name : String) :
    (declarationsOf units name).Perm (declarationsOf units' name) := by
  refine h.flatMap_perm fun u v huv => huv.symbols.flatMap_perm fun s t hst => ?_
  rw [hst.name, huv.file]
  split
  · exact hst.declarations.map _
  · exact .nil

/-- A name has the same functions in each order. -/
theorem functionsNamed_perm (h : Rearranged SourceUnit.Reorders units units') (name : String) :
    (functionsNamed units name).Perm (functionsNamed units' name) :=
  (h.flatMap_perm fun _ _ huv => huv.functions).filter _

/-! ## Attributes -/

/-- Some declaration carries an attribute. -/
def Carries (ds : List (String × Declaration)) (a : FormatAttribute) : Prop := ∃ d ∈ ds, d.2.format = some a

/-- The places of the declarations that carry an attribute. -/
def attributedPlaces (ds : List (String × Declaration)) : List Location :=
  (ds.filter fun d => d.2.format.isSome).map fun d => ⟨d.1, d.2.span⟩

theorem mem_attributesOf : a ∈ attributesOf ds ↔ Carries ds a := by
  rw [attributesOf, List.mem_eraseDups, List.mem_filterMap]
  rfl

/-- A list without its repetitions has none. -/
theorem nodup_eraseDups (as : List FormatAttribute) : as.eraseDups.Nodup := by
  cases as with
  | nil => exact List.nodup_nil
  | cons a as =>
    rw [List.eraseDups_cons, List.nodup_cons]
    refine ⟨fun hmem => ?_, nodup_eraseDups _⟩
    simp at hmem
termination_by as.length
decreasing_by
  have hle := List.length_filter_le (fun b => !b == a) as
  simp only [List.length_cons]
  omega

/-! ## Declared names -/

theorem builtin?_eq_some_iff {f : Formatter} : builtin? name = some f ↔ f ∈ builtins ∧ f.name = name := by
  constructor
  · intro h
    exact ⟨List.mem_of_find?_eq_some h, by simpa using List.find?_some h⟩
  · rintro ⟨hf, rfl⟩
    have hall : ∀ f ∈ builtins, builtin? f.name = some f := by decide
    exact hall f hf

/-- What declarations make of a name: they disagree about it, they give the positions of its format and arguments, it is a standard
function all the same, or it stays unknown. -/
inductive Declared (name : String) (ds : List (String × Declaration)) : Option Entry → Prop where
  | disagreeing {a b : FormatAttribute} (left : Carries ds a) (right : Carries ds b) (differ : a ≠ b) :
      Declared name ds (some (.ambiguous (attributedPlaces ds)))
  | attributed {a : FormatAttribute} {f : Formatter} (only : ∀ b, Carries ds b ↔ b = a) (source : f.source = .attribute)
      (named : f.name = name) (index : f.formatIndex = a.formatIndex.toNat) (first : f.firstArg = a.firstArgIndex.map UInt64.toNat) :
      Declared name ds (some (.known f))
  | standard {f g : Formatter} (plain : ∀ a, ¬Carries ds a) (builtin : builtin? name = some g) (source : f.source = .builtin)
      (named : f.name = name) (index : f.formatIndex = g.formatIndex) (first : f.firstArg = g.firstArg) :
      Declared name ds (some (.known f))
  | unknown (plain : ∀ a, ¬Carries ds a) (builtin : builtin? name = none) : Declared name ds none

theorem source_of_mem_builtins : ∀ f ∈ builtins, f.source = .builtin := by decide

/-- An entry is what the declarations make of the name. -/
theorem declared_ofDeclarations? (name : String) (ds : List (String × Declaration)) :
    Declared name ds (Entry.ofDeclarations? name ds) := by
  have hmem : ∀ a, Carries ds a ↔ a ∈ attributesOf ds := fun _ => mem_attributesOf.symm
  have hnodup : (attributesOf ds).Nodup := nodup_eraseDups _
  unfold Entry.ofDeclarations?
  cases hds : attributesOf ds with
  | nil =>
    have hnone : ∀ a, ¬Carries ds a := by simp [hmem, hds]
    cases hstandard : builtin? name with
    | none => exact .unknown hnone hstandard
    | some g =>
      obtain ⟨hg, rfl⟩ := builtin?_eq_some_iff.1 hstandard
      exact .standard hnone hstandard (source_of_mem_builtins g hg) rfl rfl rfl
  | cons a as =>
    cases as with
    | nil => exact .attributed (by simp [hmem, hds]) rfl rfl rfl rfl
    | cons b as =>
      rw [hds] at hnodup
      have hne : a ≠ b := by simp_all
      exact .disagreeing ((hmem a).2 (by simp [hds])) ((hmem b).2 (by simp [hds])) hne

namespace Declared

variable {e : Option Entry} {index : Nat} {first : Option Nat}

/-- A name is ambiguous exactly if its declarations carry two attributes. -/
theorem ambiguous_iff (h : Declared name ds e) :
    (∃ ls, e = some (.ambiguous ls)) ↔ ∃ a b, Carries ds a ∧ Carries ds b ∧ a ≠ b := by
  constructor
  · rintro ⟨ls, rfl⟩
    cases h with
    | disagreeing left right differ => exact ⟨_, _, left, right, differ⟩
  · rintro ⟨a, b, ha, hb, hab⟩
    cases h with
    | disagreeing _ _ _ => exact ⟨_, rfl⟩
    | attributed only _ _ _ _ => exact absurd (((only a).1 ha).trans ((only b).1 hb).symm) hab
    | standard plain _ _ _ _ _ | unknown plain _ => exact absurd ha (plain a)

/-- A name is known by an attribute exactly if its declarations carry that attribute and no other. -/
theorem attribute_iff (h : Declared name ds e) :
    (∃ f, e = some (.known f) ∧ f.name = name ∧ f.source = .attribute ∧ f.formatIndex = index ∧ f.firstArg = first) ↔
      ∃ a, (∀ b, Carries ds b ↔ b = a) ∧ a.formatIndex.toNat = index ∧ a.firstArgIndex.map UInt64.toNat = first := by
  constructor
  · rintro ⟨f, rfl, -, hsource, rfl, rfl⟩
    cases h with
    | attributed only _ _ hindex hfirst => exact ⟨_, only, hindex.symm, hfirst.symm⟩
    | standard _ _ source _ _ _ =>
      rw [source] at hsource
      cases hsource
  · rintro ⟨a, ha, rfl, rfl⟩
    have hcarries : Carries ds a := (ha a).2 rfl
    cases h with
    | disagreeing left right differ => exact absurd (((ha _).1 left).trans ((ha _).1 right).symm) differ
    | attributed only source named hindex hfirst =>
      obtain rfl := (only a).1 hcarries
      exact ⟨_, rfl, named, source, hindex, hfirst⟩
    | standard plain _ _ _ _ _ | unknown plain _ => exact absurd hcarries (plain a)

/-- A name is known as that of a standard function exactly if it is one and its declarations carry no attribute. -/
theorem builtin_iff (h : Declared name ds e) :
    (∃ f, e = some (.known f) ∧ f.name = name ∧ f.source = .builtin ∧ f.formatIndex = index ∧ f.firstArg = first) ↔
      (∀ a, ¬Carries ds a) ∧ ∃ g ∈ builtins, g.name = name ∧ g.formatIndex = index ∧ g.firstArg = first := by
  constructor
  · rintro ⟨f, rfl, -, hsource, rfl, rfl⟩
    cases h with
    | attributed _ source _ _ _ =>
      rw [source] at hsource
      cases hsource
    | standard plain builtin _ _ hindex hfirst =>
      obtain ⟨hg, hname⟩ := builtin?_eq_some_iff.1 builtin
      exact ⟨plain, _, hg, hname, hindex.symm, hfirst.symm⟩
  · rintro ⟨hplain, g, hg, hname, rfl, rfl⟩
    have hbuiltin : builtin? name = some g := builtin?_eq_some_iff.2 ⟨hg, hname⟩
    cases h with
    | disagreeing left _ _ => exact absurd left (hplain _)
    | attributed only _ _ _ _ => exact absurd ((only _).2 rfl) (hplain _)
    | standard _ builtin source named hindex hfirst =>
      rw [hbuiltin, Option.some.injEq] at builtin
      subst builtin
      exact ⟨_, rfl, named, source, hindex, hfirst⟩
    | unknown _ builtin =>
      rw [hbuiltin] at builtin
      cases builtin

end Declared

/-! ## Classes -/

/-- The same class of a name: nothing is known, the same places disagree, arguments are taken from the same places, or it is a
wrapper in both cases. -/
inductive SameClass : Option Entry → Option Entry → Prop where
  | unknown : SameClass none none
  | ambiguous {ls ms : List Location} (places : ls.Perm ms) : SameClass (some (.ambiguous ls)) (some (.ambiguous ms))
  | known {f g : Formatter} (name : f.name = g.name) (source : f.source = g.source) (index : f.formatIndex = g.formatIndex)
      (first : f.firstArg = g.firstArg) : SameClass (some (.known f)) (some (.known g))
  | wrapper {f g : Formatter} {v w : String} (name : f.name = g.name) (left : f.source = .wrapper v)
      (right : g.source = .wrapper w) : SameClass (some (.known f)) (some (.known g))

namespace SameClass

variable {e e' : Option Entry}

theorem symm (h : SameClass e e') : SameClass e' e := by
  cases h with
  | unknown => exact .unknown
  | ambiguous places => exact .ambiguous places.symm
  | known name source index first => exact .known name.symm source.symm index.symm first.symm
  | wrapper name left right => exact .wrapper name.symm right left

/-- What is of the same class as a wrapper is one of the same name. -/
theorem exists_wrapper {f : Formatter} {v : String} (h : SameClass (some (.known f)) e) (hf : f.source = .wrapper v) :
    ∃ g w, e = some (.known g) ∧ g.name = f.name ∧ g.source = .wrapper w := by
  cases h with
  | known name source _ _ => exact ⟨_, v, rfl, name.symm, source.symm.trans hf⟩
  | wrapper name _ right => exact ⟨_, _, rfl, name.symm, right⟩

end SameClass

/-- Declarations make the same of a name in each order. -/
theorem Declared.sameClass {e e' : Option Entry} (h : Declared name ds e) (h' : Declared name ds' e') (hperm : ds.Perm ds') :
    SameClass e e' := by
  have hcarries : ∀ a, Carries ds a ↔ Carries ds' a := fun a => exists_congr fun d => and_congr_left fun _ => hperm.mem_iff
  cases h with
  | disagreeing left right differ =>
    obtain ⟨ls, rfl⟩ := h'.ambiguous_iff.2 ⟨_, _, (hcarries _).1 left, (hcarries _).1 right, differ⟩
    cases h' with
    | disagreeing _ _ _ => exact .ambiguous ((hperm.filter _).map _)
  | attributed only source named index first =>
    obtain ⟨g, rfl, hnamed, hsource, hindex, hfirst⟩ :=
      h'.attribute_iff.2 ⟨_, fun b => (hcarries b).symm.trans (only b), index.symm, first.symm⟩
    exact .known (named.trans hnamed.symm) (source.trans hsource.symm) hindex.symm hfirst.symm
  | standard plain builtin source named index first =>
    obtain ⟨hg, hname⟩ := builtin?_eq_some_iff.1 builtin
    obtain ⟨g, rfl, hnamed, hsource, hindex, hfirst⟩ :=
      h'.builtin_iff.2 ⟨fun a => mt (hcarries a).2 (plain a), _, hg, hname, index.symm, first.symm⟩
    exact .known (named.trans hnamed.symm) (source.trans hsource.symm) hindex.symm hfirst.symm
  | unknown plain builtin =>
    cases h' with
    | disagreeing left _ _ => exact absurd ((hcarries _).2 left) (plain _)
    | attributed only _ _ _ _ => exact absurd ((hcarries _).2 ((only _).2 rfl)) (plain _)
    | standard _ builtin' _ _ _ _ =>
      rw [builtin] at builtin'
      cases builtin'
    | unknown _ _ => exact .unknown

/-- The declarations in a program make the same of a name in each order. -/
theorem sameClass_entryOf? (h : Rearranged SourceUnit.Reorders units units') (name : String) :
    SameClass (entryOf? units name) (entryOf? units' name) :=
  (declared_ofDeclarations? name _).sameClass (declared_ofDeclarations? name _) (declarationsOf_perm h name)

/-! ## Wrappers -/

/-- The position of the format that a name is known to take, if it is not ambiguous. -/
def formatIndex? (known : String → Option Entry) (name : String) : Option Nat :=
  ((known name).bind Entry.formatter?).map Formatter.formatIndex

/-- Whether a call hands on a parameter depends on the positions of formats alone. -/
theorem isSome_forward?_iff {known : String → Option Entry} {f : Function} {call : CallSite} :
    (forward? known f call).isSome ↔ ∃ callee i arg param, call.callee = some callee ∧ formatIndex? known callee = some i ∧
      call.args[i]? = some arg ∧ arg.asVar = some param ∧ (f.paramIndex? param).isSome := by
  simp only [forward?, formatIndex?, Option.isSome_iff_exists, Option.bind_eq_bind, Option.bind_eq_some_iff, Option.map_eq_some_iff]
  constructor
  · rintro ⟨_, callee, hcallee, e, he, inner, hinner, arg, harg, param, hparam, index, hindex, -⟩
    exact ⟨callee, _, arg, param, hcallee, ⟨inner, ⟨e, he, hinner⟩, rfl⟩, harg, hparam, index, hindex⟩
  · rintro ⟨callee, _, arg, param, hcallee, ⟨inner, ⟨e, he, hinner⟩, rfl⟩, harg, hparam, index, hindex⟩
    exact ⟨_, callee, hcallee, e, he, inner, hinner, arg, harg, param, hparam, index, hindex, rfl⟩

/-- Whether a function is a wrapper depends on the positions of formats alone. -/
theorem isSome_wrapper?_congr {known known' : String → Option Entry} (h : formatIndex? known = formatIndex? known')
    (f : Function) : (wrapper? known f).isSome = (wrapper? known' f).isSome := by
  have hforward : ∀ call, (forward? known f call).isSome = (forward? known' f call).isSome := by
    intro call
    rw [Bool.eq_iff_iff, isSome_forward?_iff, isSome_forward?_iff, h]
  unfold wrapper?
  split
  · rw [Option.isSome_map, Option.isSome_map, Bool.eq_iff_iff, List.findSome?_isSome_iff, List.findSome?_isSome_iff]
    simp [hforward]
  · rfl

/-- The entries by declarations take formats at the same positions in each order. -/
theorem formatIndex?_entryOf? (h : Rearranged SourceUnit.Reorders units units') :
    formatIndex? (entryOf? units) = formatIndex? (entryOf? units') := by
  funext name
  have hdeclared : Declared name (declarationsOf units name) (entryOf? units name) := declared_ofDeclarations? name _
  have hclass := sameClass_entryOf? h name
  unfold formatIndex?
  generalize entryOf? units name = e at hdeclared hclass ⊢
  generalize entryOf? units' name = e' at hclass ⊢
  cases hclass with
  | unknown | ambiguous _ => rfl
  | known _ _ index _ => exact congrArg some index
  | wrapper _ left _ =>
    cases hdeclared with
    | attributed _ source _ _ _ | standard _ _ source _ _ _ =>
      rw [source] at left
      cases left

/-- Some function of a name is a wrapper in each order or in none. -/
theorem isSome_wrapper_named (h : Rearranged SourceUnit.Reorders units units') (name : String) :
    ((functionsNamed units name).findSome? (wrapper? (entryOf? units))).isSome =
      ((functionsNamed units' name).findSome? (wrapper? (entryOf? units'))).isSome := by
  rw [Bool.eq_iff_iff, List.findSome?_isSome_iff, List.findSome?_isSome_iff]
  refine exists_congr fun f => ?_
  rw [(functionsNamed_perm h name).mem_iff, isSome_wrapper?_congr (formatIndex?_entryOf? h)]

/-- A wrapper among the functions of a name has that name. -/
theorem wrapper_named {w : Formatter} (h : (functionsNamed units name).findSome? (wrapper? (entryOf? units)) = some w) :
    w.name = name ∧ ∃ v, w.source = .wrapper v := by
  obtain ⟨f, hf, hw⟩ := List.exists_of_findSome?_eq_some h
  have hname : f.name = name := by simpa [functionsNamed] using (List.mem_filter.1 hf).2
  unfold wrapper? at hw
  split at hw
  · obtain ⟨forward, -, rfl⟩ := Option.map_eq_some_iff.1 hw
    exact ⟨hname, forward.inner.name, rfl⟩
  · cases hw

/-! ## Registries -/

/-- A name is of the same class in each order. -/
theorem sameClass_lookup (h : Rearranged SourceUnit.Reorders units units') (name : String) :
    SameClass ((Registry.ofUnits units).lookup name) ((Registry.ofUnits units').lookup name) := by
  have hclass := sameClass_entryOf? h name
  have hwrapper := isSome_wrapper_named h name
  rw [lookup_ofUnits, lookup_ofUnits]
  generalize entryOf? units name = e at hclass ⊢
  generalize entryOf? units' name = e' at hclass ⊢
  cases hclass with
  | ambiguous places => exact .ambiguous places
  | known name source index first => exact .known name source index first
  | wrapper name left right => exact .wrapper name left right
  | unknown =>
    cases hw : (functionsNamed units name).findSome? (wrapper? (entryOf? units)) with
    | none =>
      have hw' : (functionsNamed units' name).findSome? (wrapper? (entryOf? units')) = none := by simpa [hw] using hwrapper
      rw [hw']
      exact .unknown
    | some w =>
      rw [hw, Option.isSome_some] at hwrapper
      obtain ⟨w', hw'⟩ := Option.isSome_iff_exists.1 hwrapper.symm
      obtain ⟨hname, v, hv⟩ := wrapper_named hw
      obtain ⟨hname', v', hv'⟩ := wrapper_named hw'
      rw [hw']
      exact .wrapper (hname.trans hname'.symm) hv hv'

/-- A name is known for a reason, with the positions of its format and of the first argument that is formatted. -/
def Known (units : List SourceUnit) (name : String) (source : FormatterSource) (index : Nat) (first : Option Nat) : Prop :=
  ∃ f, (Registry.ofUnits units).lookup name = some (.known f) ∧ f.name = name ∧ f.source = source ∧ f.formatIndex = index ∧
    f.firstArg = first

/-- What is known of a name is known by its declarations or, if they make no entry, from a wrapper. -/
theorem lookup_eq_some_iff {e : Entry} : (Registry.ofUnits units).lookup name = some e ↔ entryOf? units name = some e ∨
    entryOf? units name = none ∧
      ∃ w, (functionsNamed units name).findSome? (wrapper? (entryOf? units)) = some w ∧ .known w = e := by
  rw [lookup_ofUnits, Option.orElse_eq_orElse, Option.orElse_eq_or, Option.or_eq_some_iff, Option.map_eq_some_iff]

/-- What is not known from a wrapper is known by declarations. -/
theorem known_iff_of_ne_wrapper {source : FormatterSource} {index : Nat} {first : Option Nat}
    (h : ∀ v, source ≠ .wrapper v) : Known units name source index first ↔
      ∃ f, entryOf? units name = some (.known f) ∧ f.name = name ∧ f.source = source ∧ f.formatIndex = index ∧
        f.firstArg = first := by
  refine exists_congr fun f => and_congr_left fun hf => ?_
  rw [lookup_eq_some_iff]
  refine or_iff_left ?_
  rintro ⟨-, w, hw, hknown⟩
  obtain ⟨-, v, hv⟩ := wrapper_named hw
  cases hknown
  exact h v (hf.2.1.symm.trans hv)

/-- A name of a wrapper is one of a wrapper wherever it is of the same class. -/
theorem Known.wrapper_of_sameClass (h : SameClass ((Registry.ofUnits units).lookup name) ((Registry.ofUnits units').lookup name)) :
    (∃ v index first, Known units name (.wrapper v) index first) → ∃ v index first, Known units' name (.wrapper v) index first := by
  rintro ⟨v, _, _, f, hf, hname, hsource, -, -⟩
  rw [hf] at h
  obtain ⟨g, w, hg, hgname, hgsource⟩ := h.exists_wrapper hsource
  exact ⟨w, _, _, g, hg, hgname.trans hname, hgsource, rfl, rfl⟩

/-- In whatever order a program is given, a registry classifies each name the same. A name is ambiguous exactly if its declarations
over all units carry two attributes, and then the places of those that carry one are listed; it is known by an attribute exactly if
they carry that one alone, and as a standard function exactly if it is one and they carry none, with the positions of the attribute
and of the standard function. The names of wrappers are the same in each order. -/
theorem classification_reordered (h : Rearranged SourceUnit.Reorders units units') :
    (∀ name, SameClass ((Registry.ofUnits units).lookup name) ((Registry.ofUnits units').lookup name)) ∧
    (∀ name, (∃ ls, (Registry.ofUnits units).lookup name = some (.ambiguous ls)) ↔
      ∃ a b, Carries (declarationsOf units name) a ∧ Carries (declarationsOf units name) b ∧ a ≠ b) ∧
    (∀ name ls, (Registry.ofUnits units).lookup name = some (.ambiguous ls) →
      ls = attributedPlaces (declarationsOf units name)) ∧
    (∀ name index first, Known units name .attribute index first ↔
      ∃ a, (∀ b, Carries (declarationsOf units name) b ↔ b = a) ∧ a.formatIndex.toNat = index ∧
        a.firstArgIndex.map UInt64.toNat = first) ∧
    (∀ name index first, Known units name .builtin index first ↔
      (∀ a, ¬Carries (declarationsOf units name) a) ∧
        ∃ g ∈ builtins, g.name = name ∧ g.formatIndex = index ∧ g.firstArg = first) ∧
    (∀ name, (∃ v index first, Known units name (.wrapper v) index first) ↔
      ∃ v index first, Known units' name (.wrapper v) index first) := by
  have hdeclared : ∀ name, Declared name (declarationsOf units name) (entryOf? units name) := fun name =>
    declared_ofDeclarations? name _
  have hambiguous : ∀ name ls, (Registry.ofUnits units).lookup name = some (.ambiguous ls) ↔
      entryOf? units name = some (.ambiguous ls) := by
    intro name ls
    rw [lookup_eq_some_iff]
    refine or_iff_left ?_
    rintro ⟨-, w, -, hw⟩
    cases hw
  refine ⟨sameClass_lookup h, fun name => ?_, fun name ls hls => ?_, fun name index first => ?_, fun name index first => ?_,
    fun name => ?_⟩
  · simp only [hambiguous]
    exact (hdeclared name).ambiguous_iff
  · have hclass := hdeclared name
    rw [(hambiguous name ls).1 hls] at hclass
    cases hclass
    rfl
  · rw [known_iff_of_ne_wrapper (by simp)]
    exact (hdeclared name).attribute_iff
  · rw [known_iff_of_ne_wrapper (by simp)]
    exact (hdeclared name).builtin_iff
  · exact ⟨Known.wrapper_of_sameClass (sameClass_lookup h name), Known.wrapper_of_sameClass (sameClass_lookup h name).symm⟩

/-- A function `warn` of two strings that hands one of them on to `printf`. -/
def warning (param : VarId) : Function where
  name := "warn"
  span := .zero
  returnType := .void
  variadic := true
  vars := [⟨0, "x", .pointer (.char .char), .automatic, .param, false, .zero⟩,
    ⟨1, "y", .pointer (.char .char), .automatic, .param, false, .zero⟩]
  blocks := [⟨0, [⟨.call ⟨some "printf", [.var ⟨.pointer (.char .char), .zero⟩ param], .zero⟩, .zero⟩], []⟩]
  entry := 0

/-- A file that declares `log` with attributes and defines `warn`. -/
def logFile (file : String) (attributes : List FormatAttribute) (params : List VarId) : SourceUnit where
  file := file
  target := none
  symbols := [⟨"log", attributes.map fun a => ⟨[.pointer (.char .char)], true, some a, .zero⟩⟩]
  functions := params.map warning

/-- Such a file with its declarations and functions in another order. -/
theorem logFile_reorders {file : String} {attributes attributes' : List FormatAttribute} {params params' : List VarId}
    (ha : attributes.Perm attributes') (hp : params.Perm params') :
    (logFile file attributes params).Reorders (logFile file attributes' params') where
  file := rfl
  target := rfl
  symbols := ⟨_, .refl _, .cons ⟨rfl, ha.map _⟩ .nil⟩
  functions := hp.map _

/-- Two such files, whose declarations disagree. -/
def logFiles : List SourceUnit := [logFile "a.c" [⟨0, some 1⟩, ⟨0, none⟩] [0, 1], logFile "b.c" [⟨0, some 1⟩] []]

/-- The same files, declarations and functions from the last to the first. -/
def logFilesBackwards : List SourceUnit := [logFile "b.c" [⟨0, some 1⟩] [], logFile "a.c" [⟨0, none⟩, ⟨0, some 1⟩] [1, 0]]

/-- In both orders `log` is ambiguous and `warn` a wrapper, though another function is found to be the wrapper. -/
theorem classification_logFiles :
    Rearranged SourceUnit.Reorders logFiles logFilesBackwards ∧
    (∃ ls, (Registry.ofUnits logFilesBackwards).lookup "log" = some (.ambiguous ls)) ∧
    (∃ v index first, Known logFilesBackwards "warn" (.wrapper v) index first) ∧
    Known logFiles "warn" (.wrapper "printf") 0 (some 2) ∧ ¬Known logFilesBackwards "warn" (.wrapper "printf") 0 (some 2) := by
  have hreordered : Rearranged SourceUnit.Reorders logFiles logFilesBackwards :=
    ⟨_, .swap _ _ _, .cons (logFile_reorders (.refl _) (.refl _)) (.cons (logFile_reorders (.swap _ _ _) (.swap _ _ _)) .nil)⟩
  have hwarn : Known logFiles "warn" (.wrapper "printf") 0 (some 2) := ⟨_, rfl, rfl, rfl, rfl, rfl⟩
  have hindex : ((Registry.ofUnits logFilesBackwards).formatter? "warn").map Formatter.formatIndex = some 1 := rfl
  obtain ⟨hclass, -, -, -, -, hwrapper⟩ := classification_reordered hreordered
  refine ⟨hreordered, ?_, (hwrapper "warn").1 ⟨_, _, _, hwarn⟩, hwarn, ?_⟩
  · have hlog := hclass "log"
    have hforwards : (Registry.ofUnits logFiles).lookup "log" = some (.ambiguous (attributedPlaces (declarationsOf logFiles "log"))) :=
      rfl
    rw [hforwards] at hlog
    generalize (Registry.ofUnits logFilesBackwards).lookup "log" = e at hlog
    cases hlog with
    | ambiguous _ => exact ⟨_, rfl⟩
  · rintro ⟨f, hf, -, -, hzero, -⟩
    unfold Registry.formatter? at hindex
    rw [hf] at hindex
    have hone : f.formatIndex = 1 := Option.some.inj hindex
    omega

end Format

end FlowLint
