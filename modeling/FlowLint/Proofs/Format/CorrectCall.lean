import Mathlib.Data.List.Forall2
import FlowLint.Proofs.Format.Admission

/-!
# Correct calls

A format string names the types of its arguments: `int` for each star, the integer that the length modifier names, and so on
(`FormatString.argumentTypes`). An argument of the type that is named is admitted by its slot on every target, and it is as wide
as what is read (`Directive.slots_fit`), so that a call with these arguments has no findings (`callFindings_of_argumentTypes`).
-/

namespace FlowLint.Format

/-! ## The types that a format string names -/

/-- The integer type that a length modifier names. -/
def integerType : Option Length → CType
  | none | some .int32 | some .wide => .int .int
  | some .char => .char .char
  | some .short => .int .short
  | some .long => .int .long
  | some .longLong | some .quad | some .longDouble | some .int64 => .int .longLong
  | some .intmax => .int .intmaxT
  | some .size => .int .sizeT
  | some .ptrdiff => .int .ptrdiffT
  | some .pointer => .int .intptrT

/-- The floating type that a length modifier names. -/
def floatingType : Option Length → CType
  | some .longDouble => .float .longDouble
  | _ => .float .double

namespace Directive

/-- The type of the argument that a directive converts, under a function with strings of encoding `e`. -/
def convertedType? (d : Directive) (e : Encoding) : Option CType :=
  match d.conversion with
  | .d | .i | .u | .o | .x | .X => some (integerType d.length)
  | .f | .F | .e | .E | .g | .G | .a | .A => some (floatingType d.length)
  | .c | .C => some (.int .int)
  | .s => some (.pointer (.char (d.textEncoding e).charType))
  | .S => some (.pointer (.char (d.textEncoding (otherEncoding e)).charType))
  | .p => some (.pointer .void)
  | .n => some (.pointer (.int .int))
  | .percent => none

/-- The types of the arguments of a directive: `int` for its stars, then that of what it converts. -/
def argumentTypes (d : Directive) (e : Encoding) : List CType :=
  List.replicate d.stars.length (.int .int) ++ (d.convertedType? e).toList

end Directive

/-- The types of the arguments of a format string, in order. -/
def FormatString.argumentTypes (f : FormatString) (e : Encoding) : List CType := f.directives.flatMap fun d => d.argumentTypes e

/-! ## Arguments of these types are right -/

/-- An argument of a type is right for a slot: it is admitted, and as wide as what is read. -/
def Slot.Fits (t : Target) (slot : Slot) (c : CType) : Prop := slot.admits t c = true ∧ slot.widthMismatch t c = none

/-- On every target a length modifier reads as many bytes as the integer that it names has. -/
theorem promotedSize?_integerType (t : Target) (l : Option Length) :
    t.promotedSize? (integerType l) = some (impliedSize t l) := by
  obtain ⟨model, wcharWidth⟩ := t
  rcases l with _ | l
  · rfl
  · cases l <;> cases model <;> rfl

theorem isIntegral_integerType (l : Option Length) : (integerType l).referent.isIntegral = true := by
  rcases l with _ | l
  · rfl
  · cases l <;> rfl

theorem isFloating_floatingType (l : Option Length) : (floatingType l).referent.isFloating = true := by
  unfold floatingType
  split <;> rfl

namespace Directive

variable (d : Directive) (e : Encoding) (t : Target)

theorem widthMismatch_integerType : d.widthMismatch t (integerType d.length) = none := by
  unfold widthMismatch
  split
  · simp [promotedSize?_integerType]
  · rfl

/-- Only integer conversions have a width to be compared. -/
theorem widthMismatch_of_not_isInteger {d : Directive} (h : d.conversion.isInteger = false) (c : CType) :
    d.widthMismatch t c = none := by
  unfold widthMismatch
  rw [h, Bool.false_and, if_neg Bool.false_ne_true]

/-- The argument that is converted is right if it is of the type that is named. -/
theorem converted_fits :
    List.Forall₂ (Slot.Fits t) ((d.expected e).toList.map (.converted d)) (d.convertedType? e).toList := by
  have hinteger : ∀ kind : ArgumentKind, (∀ c : CType, c.referent.isIntegral = true → kind.admits t c = true) →
      List.Forall₂ (Slot.Fits t) [.converted d kind] [integerType d.length] := by
    intro kind hkind
    exact .cons ⟨hkind _ (isIntegral_integerType _), d.widthMismatch_integerType t⟩ .nil
  have hother : ∀ (kind : ArgumentKind) (c : CType), d.conversion.isInteger = false → kind.admits t c = true →
      List.Forall₂ (Slot.Fits t) [.converted d kind] [c] := by
    intro kind c hd hkind
    exact .cons ⟨hkind, widthMismatch_of_not_isInteger t hd c⟩ .nil
  have hfloat : ArgumentKind.float.admits t (floatingType d.length) = true := by
    simp [ArgumentKind.admits, isFloating_floatingType]
  have hstring : ∀ e' : Encoding, (ArgumentKind.string e').admits t (.pointer (.char e'.charType)) = true := by
    intro e'
    simp [ArgumentKind.admits, CType.referent, CType.pointee, textMatches, Target.encodingWidth]
  unfold expected convertedType?
  cases hd : d.conversion with
  | d | i | u | o | x | X => exact hinteger _ fun c hc => by simp [ArgumentKind.admits, hc]
  | f | F | e | E | g | G | a | A => exact hother _ _ (by rw [hd]; rfl) hfloat
  | c | C => exact hother _ _ (by rw [hd]; rfl) rfl
  | s | S => exact hother _ _ (by rw [hd]; rfl) (hstring _)
  | p | n => exact hother _ _ (by rw [hd]; rfl) rfl
  | percent => exact .nil

/-- The arguments of a directive are right if they are of the types that it names. -/
theorem slots_fit : List.Forall₂ (Slot.Fits t) (d.slots e) (d.argumentTypes e) := by
  have hstar : Slot.Fits t (.width d) (.int .int) ∧ Slot.Fits t (.precision d) (.int .int) :=
    ⟨⟨rfl, rfl⟩, ⟨rfl, rfl⟩⟩
  unfold slots argumentTypes
  refine List.rel_append ?_ (d.converted_fits e t)
  rw [length_stars]
  split <;> split <;> simp [hstar]

end Directive

/-- The arguments of a format string are right if they are of the types that it names. -/
theorem FormatString.slots_fit (f : FormatString) (e : Encoding) (t : Target) :
    List.Forall₂ (Slot.Fits t) (f.directives.flatMap fun d => d.slots e) (f.argumentTypes e) := by
  unfold argumentTypes
  generalize f.directives = ds
  induction ds with
  | nil => exact .nil
  | cons d ds ih =>
    rw [List.flatMap_cons, List.flatMap_cons]
    exact List.rel_append (d.slots_fit e t) ih

/-- What is read for an argument is the slot at its index. -/
theorem FormatString.getElem?_slots_of_mem_readings {f : FormatString} {e : Encoding} {r : Nat × Slot} (h : r ∈ f.readings e) :
    (f.directives.flatMap fun d => d.slots e)[r.1]? = some r.2 := by
  rw [readings_eq] at h
  obtain ⟨n, hn⟩ := List.mem_iff_getElem?.1 h
  obtain ⟨hindex, hslot⟩ := List.getElem?_zip_eq_some.1 hn
  obtain ⟨hlt, hindex⟩ := List.getElem?_eq_some_iff.1 hindex
  rw [List.getElem_range] at hindex
  rw [← hindex, hslot]

end FlowLint.Format

namespace FlowLint.Check.FormatCheck

open FlowLint.Format

variable {k : FormatCheck} {c : Call} {f : FormatString} {e : Encoding} {args : List Expr}

/-- Arguments of the types that a format string names are as many as are counted, and nothing is wrong with any of them. -/
theorem argumentFindings_of_argumentTypes (htypes : args.map Expr.type = f.argumentTypes e) :
    args.length = f.argumentCount ∧ k.argumentFindings c (f.readings e) args = [] := by
  have hfit := f.slots_fit e k.target
  rw [← htypes, List.forall₂_map_right_iff] at hfit
  constructor
  · rw [← hfit.length_eq, FormatString.length_flatMap_slots]
    rfl
  · rw [List.eq_nil_iff_forall_not_mem]
    intro x hx
    obtain ⟨i, slot, arg, hread, harg, hx⟩ := mem_argumentFindings.1 hx
    have hslot := FormatString.getElem?_slots_of_mem_readings hread
    have hmem : (slot, arg) ∈ (f.directives.flatMap fun d => d.slots e).zip args :=
      List.mem_iff_getElem?.2 ⟨i, List.getElem?_zip_eq_some.2 ⟨hslot, harg⟩⟩
    obtain ⟨htype, hwidth⟩ := List.forall₂_zip hfit hmem
    rw [slotFinding?_eq_none htype hwidth] at hx
    cases hx

/-- A call of a formatter is correct on every target if its format is a constant that is well formed and its arguments are of the
types that the format names: nothing is found, whether widths are checked or not. -/
theorem callFindings_of_argumentTypes {s : Subject} {place : Span} {site : CallSite} {callee : String} {f : Formatter}
    {first : Nat} {formatArg : Expr} {text : String} (hcallee : site.callee = some callee)
    (hknown : k.registry.lookup callee = some (.known f)) (hfirst : f.firstArg = some first)
    (hformat : site.args[f.formatIndex]? = some formatArg)
    (hconstant : constantText? s.function maxConstants formatArg = some text) (hwell : (Format.parse text).error = none)
    (htypes : (site.args.drop first).map Expr.type = (Format.parse text).argumentTypes f.encoding) :
    k.callFindings s place site = [] := by
  have hfindings : ∀ c : Call, c.args = site.args → k.textFindings c f formatArg text = [] := by
    intro c hc
    rw [List.eq_nil_iff_forall_not_mem]
    intro x hx
    obtain ⟨hcount, hnone⟩ := argumentFindings_of_argumentTypes (k := k) (c := c) htypes
    rcases (mem_textFindings hfirst).1 hx with ⟨error, herror, -⟩ | hx | ⟨-, hx⟩
    · rw [hwell] at herror
      cases herror
    · rw [hc, hnone] at hx
      exact absurd hx List.not_mem_nil
    · rw [hc, Call.wrongNumber?_eq_none_iff.2 hcount] at hx
      cases hx
  unfold callFindings
  rw [hcallee]
  dsimp only
  rw [hknown]
  dsimp only
  unfold formatterFindings
  rw [hformat]
  dsimp only
  rw [hconstant]
  exact hfindings _ rfl

/-- The check on a target with pointers of 64 and `long` of 32 bits, without declarations. -/
def checkOnLlp64 : FormatCheck := ⟨.ofUnits [], ⟨.llp64, 2⟩, .warning, true⟩

/-- A wide format with stars, length modifiers and a percent sign. -/
def manyDirectives : String := "%-*.*ls%hhx%I64d%Lf%S%%%ld%zu%n"

/-- A call of `swprintf` with this format behind a cast, and arguments of the types that it names. -/
def printMany : CallSite where
  callee := some "swprintf"
  args := [valueOf (.pointer (.char .wchar)), valueOf (.int .sizeT),
    .cast ⟨.pointer (.char .wchar), .zero⟩ (.string ⟨.pointer (.char .wchar), .zero⟩ manyDirectives .wide)] ++
    [.int .int, .int .int, .pointer (.char .wchar), .char .char, .int .longLong, .float .longDouble, .pointer (.char .char),
      .int .long, .int .sizeT, .pointer (.int .int)].map valueOf
  span := .zero

/-- Nothing is found. -/
theorem callFindings_printMany :
    (Format.parse manyDirectives).error = none ∧
    (printMany.args.drop 3).map Expr.type = (Format.parse manyDirectives).argumentTypes .wide ∧
    checkOnLlp64.callFindings ⟨"a.c", default⟩ .zero printMany = [] := by
  have hwell : (Format.parse manyDirectives).error = none := by decide +kernel
  have htypes : (printMany.args.drop 3).map Expr.type = (Format.parse manyDirectives).argumentTypes .wide := by decide +kernel
  have hknown : checkOnLlp64.registry.lookup "swprintf" = some (.known (standard "swprintf" 2 (some 3) .wide)) := by
    decide +kernel
  exact ⟨hwell, htypes, callFindings_of_argumentTypes rfl hknown rfl rfl rfl hwell htypes⟩

end FlowLint.Check.FormatCheck
