import FlowLint.Proofs.Format.Slots

/-!
# Arguments of wrong types

An argument is reported to be of a wrong type exactly if the slot that reads it does not admit its type
(`wrongType_free_iff`). Nothing is known of records and of types that the front end could not determine, and of what a pointer to
`void` or to an unknown type points to: every slot admits them, but for `%n`, which does not admit pointers to `void`
(`wrongType_free_iff_of_hidden`).
-/

namespace FlowLint.Format

namespace Slot

/-- Whether a slot can read an argument of a type. -/
def admits (t : Target) : Slot → CType → Bool
  | .width _, c | .precision _, c => admitsStar c
  | .converted _ kind, c => kind.admits t c

/-- The bytes that a slot reads and those that an integer argument has, if they differ. -/
def widthMismatch (t : Target) : Slot → CType → Option (Nat × Nat)
  | .width _, _ | .precision _, _ => none
  | .converted d _, c => d.widthMismatch t c

/-- The conversion for which an argument is read, unless it is a width or a precision. -/
def conversion? : Slot → Option Conversion
  | .width _ | .precision _ => none
  | .converted d _ => some d.conversion

end Slot

variable {d : Directive} {e : Encoding} {slot : Slot} {c : CType}

theorem Directive.mem_slots_iff : slot ∈ d.slots e ↔ slot = .width d ∧ d.width = some .star ∨
    slot = .precision d ∧ d.precision = some .star ∨ ∃ kind, slot = .converted d kind ∧ d.expected e = some kind := by
  unfold slots
  simp only [List.mem_append, List.mem_map, Option.mem_toList, or_assoc]
  refine or_congr ?_ (or_congr ?_ ?_)
  · split <;> simp_all
  · split <;> simp_all
  · constructor
    · rintro ⟨kind, hkind, rfl⟩
      exact ⟨kind, rfl, hkind⟩
    · rintro ⟨kind, rfl, hkind⟩
      exact ⟨kind, hkind, rfl⟩

/-- What is read is a slot of one of the directives. -/
theorem FormatString.exists_directive_of_mem_readings {f : FormatString} {r : Nat × Slot} (h : r ∈ f.readings e) :
    ∃ d ∈ f.directives, r.2 ∈ d.slots e := by
  rw [readings_eq] at h
  exact List.mem_flatMap.1 (List.of_mem_zip h).2

end FlowLint.Format

namespace FlowLint.Check.FormatCheck

open FlowLint.Format

variable {k : FormatCheck} {c : Call} {slot : Slot} {arg : Expr}

/-- Nothing is wrong with an argument of a type that its slot admits, if it is as wide as what is read. -/
theorem slotFinding?_eq_none (htype : slot.admits k.target arg.type = true)
    (hwidth : slot.widthMismatch k.target arg.type = none) : k.slotFinding? c slot arg = none := by
  cases slot with
  | width d | precision d => exact if_pos htype
  | converted d kind =>
    change kind.admits k.target arg.type = true at htype
    change d.widthMismatch k.target arg.type = none at hwidth
    unfold slotFinding?
    dsimp only
    rw [if_pos htype, hwidth]
    exact ite_self none

/-- An argument is found to be of a wrong type exactly if its slot does not admit it. -/
theorem exists_wrongType_iff :
    (∃ x, k.slotFinding? c slot arg = some x ∧ x.rule = .wrongTypeFormatArgument) ↔
      slot.admits k.target arg.type = false := by
  cases slot with
  | width d | precision d =>
    change (∃ x, (if admitsStar arg.type then none else some _) = some x ∧ _) ↔ admitsStar arg.type = false
    cases admitsStar arg.type with
    | true => simp
    | false => simp [Call.wrongType, Call.findingAt, Subject.finding]
  | converted d kind =>
    change _ ↔ kind.admits k.target arg.type = false
    unfold slotFinding?
    dsimp only
    cases kind.admits k.target arg.type with
    | true =>
      simp only [if_true, Bool.true_eq_false, iff_false, not_exists, not_and]
      intro x hx
      split at hx
      · obtain ⟨_, -, rfl⟩ := Option.map_eq_some_iff.1 hx
        exact nofun
      · cases hx
    | false => simp [Call.wrongType, Call.findingAt, Subject.finding]

/-- No argument is reported to be of a wrong type exactly if each is of a type that its slot admits. -/
theorem wrongType_free_iff {readings : List (Nat × Slot)} {args : List Expr} :
    (∀ x ∈ k.argumentFindings c readings args, x.rule ≠ .wrongTypeFormatArgument) ↔
      ∀ r ∈ readings, ∀ arg ∈ args[r.1]?, r.2.admits k.target arg.type = true := by
  constructor
  · intro h r hread arg harg
    rw [← Bool.not_eq_false]
    intro hnot
    obtain ⟨x, hx, hrule⟩ := exists_wrongType_iff.2 hnot
    exact h x (mem_argumentFindings.2 ⟨r.1, r.2, arg, hread, harg, hx⟩) hrule
  · intro h x hx hrule
    obtain ⟨i, slot, arg, hread, harg, hx⟩ := mem_argumentFindings.1 hx
    have hnot := exists_wrongType_iff.1 ⟨x, hx, hrule⟩
    rw [h (i, slot) hread arg harg] at hnot
    cases hnot

end FlowLint.Check.FormatCheck

namespace FlowLint.Format

/-! ## Types that tell nothing -/

variable {t : Target} {e : Encoding} {slot : Slot} {d : Directive} {c p : CType}

/-- A type is unknown or a record, or a reference to such a type. -/
def Opaque (c : CType) : Prop := c.referent = .unknown ∨ ∃ name, c.referent = .record name

/-- The directives that read pointers. -/
def pointerConversions : List Conversion := [.s, .S, .p, .n]

/-- The type of an argument does not tell whether it is what a slot reads: it is opaque, or it is a pointer to `void` or to an
unknown type and the slot reads a pointer. -/
def Slot.Hides (slot : Slot) (c : CType) : Prop :=
  Opaque c ∨ (∃ k ∈ pointerConversions, slot.conversion? = some k) ∧
    (c.pointee = some .void ∨ c.pointee = some .unknown)

theorem isOpaque_iff : isOpaque c = true ↔ Opaque c := by
  unfold isOpaque Opaque
  cases c.referent <;> simp

instance : Decidable (Opaque c) := decidable_of_iff (isOpaque c = true) isOpaque_iff

instance : Decidable (slot.Hides c) :=
  inferInstanceAs (Decidable (Opaque c ∨
    (∃ k ∈ pointerConversions, slot.conversion? = some k) ∧ (c.pointee = some .void ∨ c.pointee = some .unknown)))

/-- Every slot admits opaque types. -/
theorem Slot.admits_of_isOpaque (slot : Slot) (t : Target) (h : Opaque c) : slot.admits t c = true := by
  have hunknown := isOpaque_iff.2 h
  cases slot with
  | width d | precision d =>
    change (_ || isOpaque c) = true
    rw [hunknown, Bool.or_true]
  | converted d kind =>
    change (isOpaque c || _) = true
    rw [hunknown, Bool.true_or]

/-- An opaque type is not that of a pointer. -/
theorem Opaque.pointee_eq_none (h : Opaque c) : c.pointee = none := by
  unfold CType.pointee
  rcases h with h | ⟨name, h⟩ <;> rw [h]

/-- What a type points to is what the type behind a reference points to. -/
theorem pointee_referent (h : c.pointee = some p) : c.referent.pointee = some p := by
  unfold CType.pointee at h ⊢
  cases hc : c.referent <;> simp_all [CType.referent]

theorem ArgumentKind.admits_string (h : c.pointee = some p) (hp : p = .void ∨ p = .unknown) :
    (ArgumentKind.string e).admits t c = true := by
  have htext : textMatches t e p = true := by rcases hp with rfl | rfl <;> rfl
  simp [admits, pointee_referent h, htext]

theorem ArgumentKind.admits_pointer (h : c.pointee = some p) : ArgumentKind.pointer.admits t c = true := by
  have hpointer : c.referent.isPointerLike = true := by
    have hreferent := pointee_referent h
    unfold CType.pointee at hreferent
    unfold CType.isPointerLike
    split at hreferent <;> simp_all
  simp [admits, hpointer]

/-- A counter is admitted where nothing is known of what is pointed to, but not where that is `void`. -/
theorem ArgumentKind.admits_countPointer_iff (h : c.pointee = some p) (hp : p = .void ∨ p = .unknown) :
    ArgumentKind.countPointer.admits t c = true ↔ p ≠ .void := by
  have hknown : isOpaque c = false := by
    unfold CType.pointee at h
    unfold isOpaque
    split at h <;> simp_all
  unfold admits
  dsimp only
  rw [hknown, pointee_referent h]
  rcases hp with rfl | rfl <;> simp [CType.isIntegral, CType.isUnknown, CType.referent]

/-- A slot admits types that tell nothing, unless it is that of `%n` and the type is a pointer to `void`. -/
theorem Slot.admits_iff_of_hides (hslot : slot ∈ d.slots e) (h : slot.Hides c) :
    slot.admits t c = true ↔ ¬(slot.conversion? = some .n ∧ c.pointee = some .void) := by
  rcases h with hunknown | ⟨⟨k, hk, hconversion⟩, hpointee⟩
  · simp [slot.admits_of_isOpaque t hunknown, hunknown.pointee_eq_none]
  · obtain ⟨p, hp, hvoid⟩ : ∃ p, c.pointee = some p ∧ (p = .void ∨ p = .unknown) := by
      rcases hpointee with hp | hp
      · exact ⟨_, hp, .inl rfl⟩
      · exact ⟨_, hp, .inr rfl⟩
    rcases Directive.mem_slots_iff.1 hslot with ⟨rfl, -⟩ | ⟨rfl, -⟩ | ⟨kind, rfl, hkind⟩
    · cases hconversion
    · cases hconversion
    · change some d.conversion = some k at hconversion
      change kind.admits t c = true ↔ ¬(some d.conversion = some Conversion.n ∧ _)
      rw [hconversion, hp]
      rw [Option.some.injEq] at hconversion
      unfold Directive.expected at hkind
      rw [hconversion] at hkind
      simp only [pointerConversions, List.mem_cons, List.not_mem_nil, or_false] at hk
      rcases hk with rfl | rfl | rfl | rfl <;> cases hkind
      · simp [ArgumentKind.admits_string hp hvoid]
      · simp [ArgumentKind.admits_string hp hvoid]
      · simp [ArgumentKind.admits_pointer hp]
      · simp [ArgumentKind.admits_countPointer_iff hp hvoid]

end FlowLint.Format

namespace FlowLint.Check.FormatCheck

open FlowLint.Format

variable {k : FormatCheck} {c : Call} {f : FormatString} {e : Encoding} {args : List Expr}

/-- Where the types of all arguments that are read tell nothing, no argument is reported to be of a wrong type, unless `%n` reads
a pointer to `void`: such an argument is reported. -/
theorem wrongType_free_iff_of_hidden (hhidden : ∀ r ∈ f.readings e, ∀ arg ∈ args[r.1]?, r.2.Hides arg.type) :
    (∀ x ∈ k.argumentFindings c (f.readings e) args, x.rule ≠ .wrongTypeFormatArgument) ↔
      ∀ r ∈ f.readings e, ∀ arg ∈ args[r.1]?, r.2.conversion? = some .n → arg.type.pointee ≠ some .void := by
  rw [wrongType_free_iff]
  refine forall_congr' fun r => forall_congr' fun hread => forall_congr' fun arg => forall_congr' fun harg => ?_
  obtain ⟨d, -, hslot⟩ := FormatString.exists_directive_of_mem_readings hread
  rw [Slot.admits_iff_of_hides hslot (hhidden r hread arg harg), not_and]

/-- An expression of a type. -/
def valueOf (type : CType) : Expr := .other ⟨type, .zero⟩

/-- A call of `printf` with values of types behind a format. -/
def printTypes (types : List CType) : Call where
  subject := ⟨"a.c", default⟩
  callee := "printf"
  args := valueOf (.pointer (.char .char)) :: types.map valueOf
  span := .zero

/-- Types that tell nothing for `%*s%p%S%n`: the width is of an unknown type, the string of a class, the address and the wide
string are behind pointers to `void`, and the counter is behind a pointer to an unknown type. -/
def hiddenTypes : List CType :=
  [.unknown, .reference (.record "S"), .reference (.pointer .void), .array .void none, .pointer .unknown]

/-- None of them is reported. -/
theorem wrongType_free_hiddenTypes :
    (∀ r ∈ (Format.parse "%*s%p%S%n").readings .narrow, ∀ arg ∈ (hiddenTypes.map valueOf)[r.1]?, r.2.Hides arg.type) ∧
    ∀ x ∈ checkOnLp64.argumentFindings (printTypes hiddenTypes) ((Format.parse "%*s%p%S%n").readings .narrow)
      (hiddenTypes.map valueOf), x.rule ≠ .wrongTypeFormatArgument := by
  have hhidden : ∀ r ∈ (Format.parse "%*s%p%S%n").readings .narrow, ∀ arg ∈ (hiddenTypes.map valueOf)[r.1]?,
      r.2.Hides arg.type := by decide +kernel
  exact ⟨hhidden, (wrongType_free_iff_of_hidden hhidden).2 (by decide +kernel)⟩

/-- A pointer to `void` tells nothing either, but it is reported if `%n` reads it. -/
theorem wrongType_countThroughVoid :
    (∀ r ∈ (Format.parse "%n").readings .narrow, ∀ arg ∈ [valueOf (.pointer .void)][r.1]?, r.2.Hides arg.type) ∧
    ∃ x ∈ checkOnLp64.argumentFindings (printTypes [.pointer .void]) ((Format.parse "%n").readings .narrow)
      [valueOf (.pointer .void)], x.rule = .wrongTypeFormatArgument := by
  exact ⟨by decide +kernel, by decide +kernel⟩

end FlowLint.Check.FormatCheck
