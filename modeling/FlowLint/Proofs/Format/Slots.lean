import Mathlib.Data.List.Nodup
import FlowLint.Check.FormatString

/-!
# Every argument is read once

The cursor of the format check goes over the arguments one by one: it is at the arguments of a directive when it has passed as
many as the directives in front of it read (`getElem?_readings`), and in the end it has read as many as the arguments are counted
to be (`readings_indices`). So what is wrong with the types of arguments is said of arguments that are counted, and if nothing is
wrong with their number each of them is read for exactly one slot (`textFindings_read_once`).
-/

namespace FlowLint.Format

/-! ## The slots of a directive -/

namespace Directive

/-- What a directive reads: its width and its precision, if they are stars, and what it converts. -/
def slots (d : Directive) (e : Encoding) : List Slot :=
  (if d.width = some .star then [.width d] else []) ++ (if d.precision = some .star then [.precision d] else []) ++
    (d.expected e).toList.map (.converted d)

variable {d : Directive} {e : Encoding}

/-- Only `%%` converts nothing. -/
theorem expected_eq_none_iff : d.expected e = none ↔ d.conversion = .percent := by
  unfold expected
  split <;> simp_all

theorem length_stars (d : Directive) :
    d.stars.length = (if d.width = some .star then 1 else 0) + if d.precision = some .star then 1 else 0 := by
  unfold stars
  rcases d.width with _ | _ | _ <;> rcases d.precision with _ | _ | _ <;> rfl

/-- A directive reads as many arguments as it is said to consume. -/
theorem length_slots (d : Directive) (e : Encoding) : (d.slots e).length = d.consumes := by
  have hconverted : (d.expected e).toList.length = if d.conversion = .percent then 0 else 1 := by
    cases h : d.expected e with
    | none =>
      rw [if_pos (expected_eq_none_iff.1 h)]
      rfl
    | some kind =>
      have hne : d.conversion ≠ .percent := fun hp => by simp [expected_eq_none_iff.2 hp] at h
      rw [if_neg hne]
      rfl
  unfold slots consumes
  rw [length_stars, List.length_append, List.length_append, List.length_map, hconverted]
  split <;> split <;> rfl

end Directive

/-! ## The cursor -/

namespace Cursor

/-- Slots that are read one after the other are read at consecutive arguments. -/
theorem foldl_take (l : List Slot) (r : Cursor) :
    l.foldl take r = ⟨r.read ++ (List.range' r.next l.length).zip l, r.next + l.length⟩ := by
  induction l generalizing r with
  | nil => simp
  | cons slot l ih =>
    rw [List.foldl_cons, ih]
    simp [take, List.range'_succ, Nat.add_assoc, Nat.add_comm 1]

/-- To pass a directive is to read its slots. -/
theorem pass_eq (e : Encoding) (r : Cursor) (d : Directive) : r.pass e d = (d.slots e).foldl take r := by
  unfold pass Directive.slots takeCount
  cases d.expected e <;> split <;> split <;> simp_all

end Cursor

namespace FormatString

variable {f : FormatString} {e : Encoding}

/-- How many arguments are consumed by directives. -/
def consumed (ds : List Directive) : Nat := ds.foldr (fun d n => d.consumes + n) 0

/-- The index of the first argument of a directive: the directives in front of it consume the others. -/
def start (f : FormatString) (k : Nat) : Nat := consumed (f.directives.take k)

theorem length_flatMap_slots (ds : List Directive) (e : Encoding) : (ds.flatMap fun d => d.slots e).length = consumed ds := by
  induction ds with
  | nil => rfl
  | cons d ds ih =>
    rw [List.flatMap_cons, List.length_append, Directive.length_slots, ih]
    rfl

/-- A format string reads the slots of its directives, one argument each. -/
theorem readings_eq (f : FormatString) (e : Encoding) :
    f.readings e = (List.range f.argumentCount).zip (f.directives.flatMap fun d => d.slots e) := by
  have hfold : f.directives.foldl (Cursor.pass e) ⟨[], 0⟩ = (f.directives.flatMap fun d => d.slots e).foldl Cursor.take ⟨[], 0⟩ := by
    rw [List.foldl_flatMap]
    exact congrArg (fun step => List.foldl step _ f.directives) (funext fun r => funext fun d => Cursor.pass_eq e r d)
  unfold readings
  rw [hfold, Cursor.foldl_take, length_flatMap_slots, List.range_eq_range']
  rfl

/-- The arguments that are read are those that are counted, in order. -/
theorem readings_indices (f : FormatString) (e : Encoding) : (f.readings e).map Prod.fst = List.range f.argumentCount := by
  have hlength : (List.range f.argumentCount).length = (f.directives.flatMap fun d => d.slots e).length := by
    rw [List.length_range, length_flatMap_slots]
    rfl
  rw [readings_eq, List.map_fst_zip (Nat.le_of_eq hlength)]

/-- The slots of a directive are read in turn, from its first argument on. -/
theorem getElem?_readings {k j : Nat} {d : Directive} {slot : Slot} (hd : f.directives[k]? = some d)
    (hslot : (d.slots e)[j]? = some slot) : (f.readings e)[f.start k + j]? = some (f.start k + j, slot) := by
  obtain ⟨hk, rfl⟩ := List.getElem?_eq_some_iff.1 hd
  have hdirectives : f.directives = f.directives.take k ++ f.directives[k] :: f.directives.drop (k + 1) := by
    rw [← List.drop_eq_getElem_cons hk, List.take_append_drop]
  have hsplit : (f.directives.flatMap fun d => d.slots e) = ((f.directives.take k).flatMap fun d => d.slots e) ++
      (f.directives[k].slots e ++ (f.directives.drop (k + 1)).flatMap fun d => d.slots e) :=
    (congrArg (List.flatMap _) hdirectives).trans (by rw [List.flatMap_append, List.flatMap_cons])
  have hj := (List.getElem?_eq_some_iff.1 hslot).1
  have hat : (f.directives.flatMap fun d => d.slots e)[f.start k + j]? = some slot := by
    rw [hsplit, start, ← length_flatMap_slots _ e, List.getElem?_append_right (Nat.le_add_right _ _), Nat.add_sub_cancel_left,
      List.getElem?_append_left hj, hslot]
  have hlt : f.start k + j < consumed f.directives := by
    rw [← length_flatMap_slots _ e]
    exact (List.getElem?_eq_some_iff.1 hat).1
  rw [readings_eq, List.getElem?_zip_eq_some]
  exact ⟨List.getElem?_range hlt, hat⟩

/-- An argument that is counted is read for one slot. -/
theorem existsUnique_reading {i : Nat} (hi : i < f.argumentCount) (e : Encoding) : ∃! slot, (i, slot) ∈ f.readings e := by
  have hindices := f.readings_indices e
  have hmem : i ∈ (f.readings e).map Prod.fst := hindices ▸ List.mem_range.2 hi
  have hnodup : ((f.readings e).map Prod.fst).Nodup := hindices ▸ List.nodup_range
  obtain ⟨⟨_, slot⟩, hread, rfl⟩ := List.mem_map.1 hmem
  refine ⟨slot, hread, fun slot' hread' => ?_⟩
  exact congrArg Prod.snd (List.inj_on_of_nodup_map hnodup hread' hread rfl)

end FormatString

end FlowLint.Format

namespace FlowLint.Check

open FlowLint.Format

/-- Nothing is wrong with the number of arguments if there are as many as are expected. -/
theorem Call.wrongNumber?_eq_none_iff {c : Call} {expected given : Nat} : c.wrongNumber? expected given = none ↔ given = expected := by
  unfold wrongNumber?
  dsimp only
  split
  · exact ⟨nofun, fun h => by omega⟩
  · split
    · exact ⟨nofun, fun h => by omega⟩
    · exact ⟨fun _ => by omega, fun _ => rfl⟩

theorem Call.rule_of_wrongNumber? {c : Call} {expected given : Nat} {x : Diagnostic} (h : c.wrongNumber? expected given = some x) :
    x.rule = .wrongNumberFormatArguments := by
  unfold wrongNumber? at h
  dsimp only at h
  split at h
  · cases h
    rfl
  · split at h <;> cases h
    rfl

namespace FormatCheck

variable {k : FormatCheck} {c : Call} {f : Formatter} {formatArg : Expr} {text : String} {x : Diagnostic}

/-- What is found at the arguments is found at one that is read. -/
theorem mem_argumentFindings {readings : List (Nat × Slot)} {args : List Expr} : x ∈ k.argumentFindings c readings args ↔
    ∃ i slot arg, (i, slot) ∈ readings ∧ args[i]? = some arg ∧ k.slotFinding? c slot arg = some x := by
  unfold argumentFindings
  rw [List.mem_filterMap]
  constructor
  · rintro ⟨⟨i, slot⟩, hr, h⟩
    obtain ⟨arg, harg, hx⟩ := Option.bind_eq_some_iff.1 h
    exact ⟨i, slot, arg, hr, harg, hx⟩
  · rintro ⟨i, slot, arg, hr, harg, hx⟩
    exact ⟨(i, slot), hr, Option.bind_eq_some_iff.2 ⟨arg, harg, hx⟩⟩

/-- Findings at arguments are about their types and widths. -/
theorem rule_of_slotFinding? {slot : Slot} {arg : Expr} (h : k.slotFinding? c slot arg = some x) :
    x.rule = .wrongTypeFormatArgument ∨ x.rule = .formatArgumentWidth := by
  have hstar : ∀ {d : Directive},
      (if admitsStar arg.type then none else some (c.wrongType arg "int" ("read by the '*' of '" ++ d.text ++ "'"))) = some x →
        x.rule = .wrongTypeFormatArgument := by
    intro d h
    split at h <;> cases h
    rfl
  cases slot with
  | width d => exact .inl (hstar h)
  | precision d => exact .inl (hstar h)
  | converted d kind =>
    unfold slotFinding? at h
    dsimp only at h
    split at h
    · split at h
      · obtain ⟨_, -, rfl⟩ := Option.map_eq_some_iff.1 h
        exact .inr rfl
      · cases h
    · cases h
      exact .inl rfl

/-- The findings for a known format: the format is malformed, arguments that are read have the wrong types or widths, or there are
too few or too many of them. -/
theorem mem_textFindings {first : Nat} (hfirst : f.firstArg = some first) : x ∈ k.textFindings c f formatArg text ↔
    (∃ error, (Format.parse text).error = some error ∧ x = c.malformed formatArg error) ∨
      x ∈ k.argumentFindings c ((Format.parse text).readings f.encoding) (c.args.drop first) ∨
      (Format.parse text).error = none ∧ c.wrongNumber? (Format.parse text).argumentCount (c.args.drop first).length = some x := by
  unfold textFindings FormatString.isMalformed
  rw [hfirst]
  dsimp only
  rw [List.mem_append, List.mem_append]
  refine or_congr ?_ (or_congr Iff.rfl ?_)
  · rw [Option.mem_toList, Option.map_eq_some_iff]
    exact exists_congr fun error => and_congr_right fun _ => eq_comm
  · cases (Format.parse text).error <;> simp

/-- The arguments of a call with a known format are read from left to right: those of a directive in turn, its width, its precision
and what it converts, behind as many as the directives in front of it consume, so that the arguments that are read are those that
are counted, each once. Findings about types and widths are those at arguments that are counted. If the format is well formed and
nothing is wrong with the number of arguments, each of them is read for exactly one slot. -/
theorem textFindings_read_once {first : Nat} (hfirst : f.firstArg = some first) :
    (∀ n d, (Format.parse text).directives[n]? = some d → ∀ j slot, (d.slots f.encoding)[j]? = some slot →
      ((Format.parse text).readings f.encoding)[(Format.parse text).start n + j]? =
        some ((Format.parse text).start n + j, slot)) ∧
    ((Format.parse text).readings f.encoding).map Prod.fst = List.range (Format.parse text).argumentCount ∧
    (∀ x, x ∈ k.textFindings c f formatArg text ∧ (x.rule = .wrongTypeFormatArgument ∨ x.rule = .formatArgumentWidth) ↔
      ∃ i slot arg, (i, slot) ∈ (Format.parse text).readings f.encoding ∧ i < (Format.parse text).argumentCount ∧
        c.args[first + i]? = some arg ∧ k.slotFinding? c slot arg = some x) ∧
    ((∀ x ∈ k.textFindings c f formatArg text, x.rule ≠ .malformedFormatString ∧ x.rule ≠ .wrongNumberFormatArguments) →
      (c.args.drop first).length = (Format.parse text).argumentCount ∧
        ∀ i < (c.args.drop first).length, ∃! slot, (i, slot) ∈ (Format.parse text).readings f.encoding) := by
  have hindices := (Format.parse text).readings_indices f.encoding
  refine ⟨fun n d hd j slot hslot => FormatString.getElem?_readings hd hslot, hindices, fun x => ⟨?_, ?_⟩, fun hx => ?_⟩
  · rintro ⟨hx, hrule⟩
    rcases (mem_textFindings hfirst).1 hx with ⟨error, -, rfl⟩ | hx | ⟨-, hx⟩
    · rcases hrule with h | h <;> cases h
    · obtain ⟨i, slot, arg, hread, harg, hx⟩ := mem_argumentFindings.1 hx
      have hi : i ∈ List.range (Format.parse text).argumentCount := hindices ▸ List.mem_map_of_mem hread
      rw [List.getElem?_drop] at harg
      exact ⟨i, slot, arg, hread, List.mem_range.1 hi, harg, hx⟩
    · rw [Call.rule_of_wrongNumber? hx] at hrule
      rcases hrule with h | h <;> cases h
  · rintro ⟨i, slot, arg, hread, -, harg, hx⟩
    rw [← List.getElem?_drop] at harg
    exact ⟨(mem_textFindings hfirst).2 (.inr (.inl (mem_argumentFindings.2 ⟨i, slot, arg, hread, harg, hx⟩))),
      rule_of_slotFinding? hx⟩
  · have herror : (Format.parse text).error = none := by
      cases h : (Format.parse text).error with
      | none => rfl
      | some error => exact absurd rfl (hx _ ((mem_textFindings hfirst).2 (.inl ⟨error, h, rfl⟩))).1
    have hnumber : c.wrongNumber? (Format.parse text).argumentCount (c.args.drop first).length = none := by
      cases h : c.wrongNumber? (Format.parse text).argumentCount (c.args.drop first).length with
      | none => rfl
      | some y =>
        exact absurd (Call.rule_of_wrongNumber? h) (hx y ((mem_textFindings hfirst).2 (.inr (.inr ⟨herror, h⟩)))).2
    have hcount := Call.wrongNumber?_eq_none_iff.1 hnumber
    exact ⟨hcount, fun i hi => FormatString.existsUnique_reading (hcount ▸ hi) f.encoding⟩

/-- The check on a target with 64 bits, without declarations. -/
def checkOnLp64 : FormatCheck := ⟨.ofUnits [], ⟨.lp64, 4⟩, .warning, true⟩

/-- The formatter `printf`. -/
def printfFormatter : Formatter := ⟨"printf", 0, some 1, .narrow, .builtin⟩

/-- A call that prints a number in a field of a width: `printf("%*d", 8, 1)`. -/
def printInField : Call where
  subject := ⟨"a.c", default⟩
  callee := "printf"
  args := [.string ⟨.pointer (.char .char), .zero⟩ "%*d" .narrow, .int ⟨.int .int, .zero⟩ 8, .int ⟨.int .int, .zero⟩ 1]
  span := .zero

/-- The width and the number are read for one slot each. -/
theorem printInField_read_once :
    printfFormatter.firstArg = some 1 ∧
    (∀ x ∈ checkOnLp64.textFindings printInField printfFormatter default "%*d",
      x.rule ≠ .malformedFormatString ∧ x.rule ≠ .wrongNumberFormatArguments) ∧
    (printInField.args.drop 1).length = (Format.parse "%*d").argumentCount ∧
    ∀ i < 2, ∃! slot, (i, slot) ∈ (Format.parse "%*d").readings .narrow := by
  have hnone : ∀ x ∈ checkOnLp64.textFindings printInField printfFormatter default "%*d",
      x.rule ≠ .malformedFormatString ∧ x.rule ≠ .wrongNumberFormatArguments := by decide +kernel
  obtain ⟨-, -, -, hread⟩ := textFindings_read_once (k := checkOnLp64) (c := printInField) (f := printfFormatter) rfl
  exact ⟨rfl, hnone, hread hnone⟩

end FormatCheck

end FlowLint.Check
