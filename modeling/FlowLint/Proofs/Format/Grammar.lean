import Mathlib.Data.List.TakeWhile
import Mathlib.Data.Nat.Digits.Defs
import FlowLint.Format.Parser

/-!
# The grammar of directives

Between its percent sign and its conversion a directive has a stem: flags, a width, a precision and a length modifier. The same
text may be a stem in several ways, since a zero is a flag and a digit; in one of them leading zeros are flags (`Stem.Canonical`).
A scan finds this one in front of a conversion (`scanStem_spelling`), and it takes the longest stem that a text starts with
(`longest_scanStem`). What is read behind a percent sign are the values of the stem that is scanned (`takeModifiers_eq`).
-/

namespace FlowLint.Format

/-- How a count is written: as an asterisk or in decimal digits. -/
inductive Numeral where
  | star
  | digits (ds : List Char)
deriving DecidableEq, Repr

namespace Numeral

def spelling : Numeral → List Char
  | .star => ['*']
  | .digits ds => ds

/-- Digits are decimal ones, and there is at least one. -/
def Written : Numeral → Prop
  | .star => True
  | .digits ds => ds ≠ [] ∧ ∀ c ∈ ds, c.isDigit = true

/-- The number that decimal digits stand for. -/
def value (ds : List Char) : Nat := Nat.ofDigits 10 (ds.map fun c => c.toNat - '0'.toNat).reverse

/-- The count. Numbers are counted up to the largest 32-bit word. -/
def count : Numeral → Count
  | .star => .star
  | .digits ds => .fixed (UInt32.ofNat (min (value ds) 4294967295))

end Numeral

/-- How an optional count is written. -/
def countText (o : Option Numeral) : List Char := o.elim [] Numeral.spelling

/-- How an optional precision is written: as a point and an optional count. -/
def precisionText (o : Option (Option Numeral)) : List Char := o.elim [] fun n => '.' :: countText n

/-- How an optional length modifier is written. -/
def lengthText (o : Option Length) : List Char := o.elim [] Length.spelling

/-- What stands between a percent sign and a conversion, as it is written. -/
structure Stem where
  flags : List Char
  width : Option Numeral
  precision : Option (Option Numeral)
  length : Option Length
deriving DecidableEq, Repr

namespace Stem

def spelling (m : Stem) : List Char :=
  m.flags ++ (countText m.width ++ (precisionText m.precision ++ lengthText m.length))

/-- The flags are flag characters, and counts are written as such. -/
structure Written (m : Stem) : Prop where
  flags : ∀ c ∈ m.flags, isFlag c = true
  width : ∀ n ∈ m.width, n.Written
  precision : ∀ o ∈ m.precision, ∀ n ∈ o, n.Written

/-- Leading zeros of a width are flags. -/
structure Canonical (m : Stem) : Prop extends Written m where
  leading : ∀ n ∈ m.width, n.spelling.head? ≠ some '0'

/-- The values of a stem in front of a text. A point alone means zero. -/
def modifiers (m : Stem) (rest : List Char) : Modifiers where
  flags := flagChars.filter m.flags.contains
  width := m.width.map Numeral.count
  precision := m.precision.map fun n => n.elim (.fixed 0) Numeral.count
  length := m.length
  rest := rest

end Stem

/-- A text is a directive: a percent sign, a stem and a conversion character. -/
def IsDirective (text : List Char) : Prop :=
  ∃ (m : Stem) (k : Conversion), m.Written ∧ text = '%' :: (m.spelling ++ [k.letter])

/-! ## Scanning -/

/-- The count at the start of a text as it is written, and the text behind it. -/
def scanNumeral (cs : List Char) : Option Numeral × List Char :=
  match cs with
  | '*' :: rest => (some .star, rest)
  | cs =>
    let digits := cs.takeWhile Char.isDigit
    (if digits.isEmpty then none else some (.digits digits), cs.dropWhile Char.isDigit)

/-- The precision at the start of a text as it is written, and the text behind it. -/
def scanPrecision (cs : List Char) : Option (Option Numeral) × List Char :=
  match cs with
  | '.' :: rest => (some (scanNumeral rest).1, (scanNumeral rest).2)
  | cs => (none, cs)

/-- The stem at the start of a text, and the text behind it. -/
def scanStem (cs : List Char) : Stem × List Char :=
  let (width, afterWidth) := scanNumeral (cs.dropWhile isFlag)
  let (precision, afterPrecision) := scanPrecision afterWidth
  let (length, rest) := takeLength afterPrecision
  (⟨cs.takeWhile isFlag, width, precision, length⟩, rest)

/-- Counting digit by digit up to a bound gives the smaller one of the number and the bound. -/
theorem foldl_min_digits (ds : List Char) (n bound : Nat) :
    ds.foldl (fun n c => min (n * 10 + (c.toNat - '0'.toNat)) bound) (min n bound) =
      min (ds.foldl (fun n c => n * 10 + (c.toNat - '0'.toNat)) n) bound := by
  induction ds generalizing n with
  | nil => rfl
  | cons c ds ih =>
    have hstep : min (min n bound * 10 + (c.toNat - '0'.toNat)) bound = min (n * 10 + (c.toNat - '0'.toNat)) bound := by
      omega
    rw [List.foldl_cons, List.foldl_cons, hstep, ih]

theorem countOfDigits_eq (ds : List Char) : countOfDigits ds = UInt32.ofNat (min (Numeral.value ds) 4294967295) := by
  have hfold := foldl_min_digits ds 0 4294967295
  have hvalue : Numeral.value ds = ds.foldl (fun n c => n * 10 + (c.toNat - '0'.toNat)) 0 := by
    unfold Numeral.value
    rw [Nat.ofDigits_eq_foldr, List.foldr_reverse, List.foldl_map]
    simp only [Nat.cast_id, Nat.add_comm, Nat.mul_comm]
  rw [hvalue, ← hfold]
  rfl

theorem scanNumeral_star (rest : List Char) : scanNumeral ('*' :: rest) = (some .star, rest) := rfl

theorem scanNumeral_of_ne_star {cs : List Char} (h : cs.head? ≠ some '*') :
    scanNumeral cs =
      (if (cs.takeWhile Char.isDigit).isEmpty then none else some (.digits (cs.takeWhile Char.isDigit)),
        cs.dropWhile Char.isDigit) := by
  unfold scanNumeral
  split
  · simp at h
  · rfl

theorem scanPrecision_of_ne_point {cs : List Char} (h : cs.head? ≠ some '.') : scanPrecision cs = (none, cs) := by
  unfold scanPrecision
  split
  · simp at h
  · rfl

theorem takeCount_eq (cs : List Char) :
    takeCount cs = ((scanNumeral cs).1.map Numeral.count, (scanNumeral cs).2) := by
  by_cases hstar : cs.head? = some '*'
  · obtain ⟨rest, rfl⟩ := List.head?_eq_some_iff.1 hstar
    rfl
  · rw [scanNumeral_of_ne_star hstar]
    unfold takeCount
    split
    · simp at hstar
    · dsimp only
      split
      · rfl
      · rw [countOfDigits_eq]
        rfl

theorem takePrecision_eq (cs : List Char) :
    takePrecision cs = ((scanPrecision cs).1.map fun n => n.elim (.fixed 0) Numeral.count, (scanPrecision cs).2) := by
  by_cases hpoint : cs.head? = some '.'
  · obtain ⟨rest, rfl⟩ := List.head?_eq_some_iff.1 hpoint
    change (some ((takeCount rest).1.getD (.fixed 0)), (takeCount rest).2) =
      (some ((scanNumeral rest).1.elim (.fixed 0) Numeral.count), (scanNumeral rest).2)
    rw [takeCount_eq]
    cases (scanNumeral rest).1 <;> rfl
  · rw [scanPrecision_of_ne_point hpoint]
    unfold takePrecision
    split
    · simp at hpoint
    · rfl

/-- What is read behind a percent sign are the values of the stem that is scanned. -/
theorem takeModifiers_eq (cs : List Char) : takeModifiers cs = (scanStem cs).1.modifiers (scanStem cs).2 := by
  unfold takeModifiers scanStem Stem.modifiers
  simp only [takeCount_eq, takePrecision_eq]

/-! ## What a scan finds is written there -/

/-- A count that is scanned is written at the start of the text. -/
theorem scanNumeral_sound (cs : List Char) :
    cs = countText (scanNumeral cs).1 ++ (scanNumeral cs).2 ∧
      ∀ n ∈ (scanNumeral cs).1, n.Written ∧ n.spelling.head? = cs.head? := by
  by_cases hstar : cs.head? = some '*'
  · obtain ⟨rest, rfl⟩ := List.head?_eq_some_iff.1 hstar
    rw [scanNumeral_star]
    refine ⟨rfl, fun n hn => ?_⟩
    cases hn
    exact ⟨trivial, rfl⟩
  · rw [scanNumeral_of_ne_star hstar]
    have happend := List.takeWhile_append_dropWhile (p := Char.isDigit) (l := cs)
    have hdigits : ∀ c ∈ cs.takeWhile Char.isDigit, c.isDigit = true := fun c hc => List.mem_takeWhile_imp hc
    dsimp only
    generalize cs.takeWhile Char.isDigit = ds at happend hdigits ⊢
    cases ds with
    | nil => simpa [countText] using happend.symm
    | cons d ds =>
      refine ⟨by simpa [countText, Numeral.spelling] using happend.symm, fun n hn => ?_⟩
      simp only [List.isEmpty_cons, Bool.false_eq_true, if_false, Option.mem_def, Option.some.injEq] at hn
      subst hn
      refine ⟨⟨by simp, hdigits⟩, ?_⟩
      rw [← happend]
      rfl

theorem scanPrecision_sound (cs : List Char) :
    cs = precisionText (scanPrecision cs).1 ++ (scanPrecision cs).2 ∧
      ∀ o ∈ (scanPrecision cs).1, ∀ n ∈ o, n.Written := by
  unfold scanPrecision
  split
  · rename_i rest
    obtain ⟨heq, hwritten⟩ := scanNumeral_sound rest
    refine ⟨congrArg ('.' :: ·) heq, fun o ho n hn => ?_⟩
    cases ho
    exact (hwritten n hn).1
  · exact ⟨rfl, fun o ho => by cases ho⟩

theorem takeLength_sound (cs : List Char) : cs = lengthText (takeLength cs).1 ++ (takeLength cs).2 := by
  unfold takeLength
  split <;> rfl

/-- A stem that is scanned is written at the start of the text, with leading zeros as flags. -/
theorem scanStem_sound (cs : List Char) :
    cs = (scanStem cs).1.spelling ++ (scanStem cs).2 ∧ (scanStem cs).1.Canonical := by
  obtain ⟨hwidth, hw⟩ := scanNumeral_sound (cs.dropWhile isFlag)
  obtain ⟨hprecision, hp⟩ := scanPrecision_sound (scanNumeral (cs.dropWhile isFlag)).2
  have hlength := takeLength_sound (scanPrecision (scanNumeral (cs.dropWhile isFlag)).2).2
  constructor
  · unfold scanStem Stem.spelling
    dsimp only
    rw [List.append_assoc, List.append_assoc, List.append_assoc, ← hlength, ← hprecision, ← hwidth,
      List.takeWhile_append_dropWhile]
  · refine ⟨⟨fun c hc => List.mem_takeWhile_imp hc, fun n hn => (hw n hn).1, hp⟩, fun n hn => ?_⟩
    rw [(hw n hn).2]
    intro hzero
    -- behind all flags there is no zero
    have hflag := List.head?_dropWhile_not isFlag cs
    rw [hzero] at hflag
    revert hflag
    decide

/-! ## A stem in front of a conversion is scanned -/

/-- A character at which neither flags nor a count go on. -/
structure Ends (c : Char) : Prop where
  flag : isFlag c = false
  digit : c.isDigit = false
  star : c ≠ '*'

theorem Conversion.letter_ends (k : Conversion) : Ends k.letter ∧ k.letter ≠ '.' := by
  cases k <;> exact ⟨⟨by decide, by decide, by decide⟩, by decide⟩

theorem Length.head_spelling (l : Length) : ∀ c ∈ l.spelling.head?, Ends c ∧ c ≠ '.' := by
  cases l <;> (rintro _ ⟨⟩; exact ⟨⟨by decide, by decide, by decide⟩, by decide⟩)

theorem ends_point : Ends '.' := ⟨by decide, by decide, by decide⟩

/-- Behind a precision there is no point, nor what flags or a count could go on with. -/
theorem head_lengthText {o : Option Length} {t : List Char} (ht : ∀ c ∈ t.head?, Ends c ∧ c ≠ '.') :
    ∀ c ∈ (lengthText o ++ t).head?, Ends c ∧ c ≠ '.' := by
  cases o with
  | none => exact ht
  | some l =>
    intro c hc
    rw [List.head?_append] at hc
    refine l.head_spelling c ?_
    cases l <;> exact hc

theorem head_precisionText {o : Option (Option Numeral)} {t : List Char} (ht : ∀ c ∈ t.head?, Ends c) :
    ∀ c ∈ (precisionText o ++ t).head?, Ends c := by
  cases o with
  | none => exact ht
  | some n =>
    rintro _ ⟨⟩
    exact ends_point

/-- Behind the flags no flag follows: the only digit that is a flag is zero. -/
theorem head_countText {o : Option Numeral} {t : List Char} (ho : ∀ n ∈ o, n.Written)
    (hleading : ∀ n ∈ o, n.spelling.head? ≠ some '0') (ht : ∀ c ∈ t.head?, Ends c) :
    ∀ c ∈ (countText o ++ t).head?, isFlag c = false := by
  match o with
  | none => exact fun c hc => (ht c hc).flag
  | some .star =>
    rintro _ ⟨⟩
    decide
  | some (.digits []) => exact absurd rfl (ho _ rfl).1
  | some (.digits (d :: ds)) =>
    rintro _ ⟨⟩
    have hd : d.isDigit = true := (ho _ rfl).2 d List.mem_cons_self
    have hzero : d ≠ '0' := fun h => hleading _ rfl (congrArg some h)
    have hflag : ∀ c ∈ flagChars, c.isDigit = true → c = '0' := by simp [flagChars]
    rw [Bool.eq_false_iff]
    intro hf
    exact hzero (hflag d (List.contains_iff_mem.1 hf) hd)

theorem scanFlags_append {fs t : List Char} (hf : ∀ c ∈ fs, isFlag c = true) (ht : ∀ c ∈ t.head?, isFlag c = false) :
    (fs ++ t).takeWhile isFlag = fs ∧ (fs ++ t).dropWhile isFlag = t := by
  rw [List.takeWhile_append_of_pos hf, List.dropWhile_append_of_pos hf]
  cases t with
  | nil => simp
  | cons c t => simp [ht c rfl]

theorem scanNumeral_append {o : Option Numeral} {t : List Char} (ho : ∀ n ∈ o, n.Written) (ht : ∀ c ∈ t.head?, Ends c) :
    scanNumeral (countText o ++ t) = (o, t) := by
  have hstar : t.head? ≠ some '*' := fun h => (ht '*' h).star rfl
  have hstop : t.takeWhile Char.isDigit = [] ∧ t.dropWhile Char.isDigit = t := by
    cases t with
    | nil => exact ⟨rfl, rfl⟩
    | cons c t => simp [(ht c rfl).digit]
  match o with
  | none =>
    change scanNumeral t = _
    rw [scanNumeral_of_ne_star hstar, hstop.1, hstop.2]
    rfl
  | some .star => rfl
  | some (.digits []) => exact absurd rfl (ho _ rfl).1
  | some (.digits (d :: ds)) =>
    have hdigits : ∀ c ∈ d :: ds, c.isDigit = true := (ho _ rfl).2
    change scanNumeral ((d :: ds) ++ t) = _
    have hd : ((d :: ds) ++ t).head? ≠ some '*' := by
      have := hdigits d List.mem_cons_self
      rintro ⟨⟩
      revert this
      decide
    rw [scanNumeral_of_ne_star hd, List.takeWhile_append_of_pos hdigits, List.dropWhile_append_of_pos hdigits, hstop.1, hstop.2]
    simp

theorem scanPrecision_append {o : Option (Option Numeral)} {t : List Char} (ho : ∀ n ∈ o, ∀ k ∈ n, k.Written)
    (ht : ∀ c ∈ t.head?, Ends c ∧ c ≠ '.') : scanPrecision (precisionText o ++ t) = (o, t) := by
  cases o with
  | none =>
    exact scanPrecision_of_ne_point fun h => (ht '.' h).2 rfl
  | some n =>
    change (some (scanNumeral (countText n ++ t)).1, (scanNumeral (countText n ++ t)).2) = _
    rw [scanNumeral_append (ho n rfl) fun c hc => (ht c hc).1]

theorem takeLength_append (o : Option Length) (k : Conversion) (t : List Char) :
    takeLength (lengthText o ++ k.letter :: t) = (o, k.letter :: t) := by
  cases o with
  | none => cases k <;> rfl
  | some l => cases l <;> cases k <;> rfl

/-- In front of a conversion the stem is scanned that has leading zeros as flags. -/
theorem scanStem_spelling {m : Stem} (hm : m.Canonical) (k : Conversion) (t : List Char) :
    scanStem (m.spelling ++ k.letter :: t) = (m, k.letter :: t) := by
  have hk : ∀ c ∈ (k.letter :: t).head?, Ends c ∧ c ≠ '.' := by
    rintro _ ⟨⟩
    exact k.letter_ends
  have hlength := head_lengthText (o := m.length) hk
  have hprecision := head_precisionText (o := m.precision) fun c hc => (hlength c hc).1
  have hwidth := head_countText hm.width hm.leading hprecision
  obtain ⟨htake, hdrop⟩ := scanFlags_append hm.flags hwidth
  unfold scanStem Stem.spelling
  simp only [List.append_assoc] at htake hdrop ⊢
  rw [htake, hdrop, scanNumeral_append hm.width hprecision, scanPrecision_append hm.precision hlength, takeLength_append]

/-- The stem with the same spelling that has leading zeros as flags. -/
def Stem.canonical (m : Stem) : Stem :=
  match m.width with
  | some (.digits ds) =>
    let others := ds.dropWhile (· == '0')
    { m with
      flags := m.flags ++ ds.takeWhile (· == '0')
      width := if others.isEmpty then none else some (.digits others) }
  | _ => m

theorem Stem.spelling_canonical (m : Stem) : m.canonical.spelling = m.spelling := by
  unfold canonical
  split
  · rename_i ds hwidth
    have hds := List.takeWhile_append_dropWhile (p := (· == '0')) (l := ds)
    conv_rhs => rw [spelling, hwidth, countText, Option.elim_some, Numeral.spelling, ← hds]
    cases ds.dropWhile (· == '0') with
    | nil => simp [spelling, countText]
    | cons d others => simp [spelling, countText, Numeral.spelling]
  · rfl

theorem Stem.Written.canonical {m : Stem} (hm : m.Written) : m.canonical.Canonical := by
  unfold Stem.canonical
  split
  · rename_i ds hwidth
    have hflags : ∀ c ∈ m.flags ++ ds.takeWhile (· == '0'), isFlag c = true := by
      intro c hc
      rcases List.mem_append.1 hc with hc | hc
      · exact hm.flags c hc
      · have hzero := List.mem_takeWhile_imp hc
        rw [beq_iff_eq] at hzero
        rw [hzero]
        decide
    have hhead := List.head?_dropWhile_not (· == '0') ds
    have hdigits : ∀ c ∈ ds.dropWhile (· == '0'), c.isDigit = true := fun c hc =>
      (hm.width _ hwidth).2 c ((List.dropWhile_suffix _).mem hc)
    cases hothers : ds.dropWhile (· == '0') with
    | nil => exact ⟨⟨hflags, fun n hn => (by cases hn), hm.precision⟩, fun n hn => by cases hn⟩
    | cons d others =>
      rw [hothers] at hhead hdigits
      refine ⟨⟨hflags, fun n hn => ?_, hm.precision⟩, fun n hn => ?_⟩
      · cases hn
        exact ⟨by simp, hdigits⟩
      · cases hn
        simpa [Numeral.spelling] using hhead
  · rename_i hwidth
    refine ⟨hm, fun n hn => ?_⟩
    cases n with
    | star => decide
    | digits ds => exact absurd hn (hwidth ds)

/-! ## A scan takes the longest stem -/

/-- No text of a class leaves less of a text than this rest, if the text starts with it. -/
def Longest (P : List Char → Prop) (cs rest : List Char) : Prop := ∀ x t, P x → cs = x ++ t → rest.length ≤ t.length

/-- One scan after the other takes the longest text of both classes, if no text of the second class could follow where a text of
the first one breaks off too early. -/
theorem Longest.append {P Q : List Char → Prop} {cs m r r' : List Char} (hcs : cs = m ++ r) (hP : Longest P cs r)
    (hQ : Longest Q r r') (hr : r'.length ≤ r.length) (hsep : ∀ c ∈ m, ∀ b, ¬Q (c :: b)) :
    Longest (fun x => ∃ a b, x = a ++ b ∧ P a ∧ Q b) cs r' := by
  rintro _ t ⟨a, b, rfl, ha, hb⟩ heq
  rw [hcs, List.append_assoc] at heq
  rcases List.append_eq_append_iff.1 heq with ⟨u, hu, hrest⟩ | ⟨u, hu, hrest⟩
  · -- the first text is at least as long as what was scanned
    have hle := hP a (b ++ t) ha (by rw [hcs, hrest, hu, List.append_assoc])
    have hnil : u = [] := by
      rw [hrest, List.length_append] at hle
      exact List.eq_nil_of_length_eq_zero (by omega)
    rw [hnil] at hrest
    exact hQ b t hb hrest
  · cases u with
    | nil => exact hQ b t hb hrest.symm
    | cons c u =>
      cases b with
      | nil =>
        have hlen := congrArg List.length hrest
        simp only [List.nil_append, List.length_append, List.length_cons] at hlen
        omega
      | cons c' b =>
        obtain ⟨rfl, -⟩ := List.cons.inj hrest
        exact absurd hb (hsep c' (by simp [hu]) b)

/-- A suffix of a text that does not start in a class of characters is left when characters of the class are dropped. -/
theorem longest_dropWhile (p : Char → Bool) (cs : List Char) :
    Longest (fun x => ∀ c ∈ x, p c = true) cs (cs.dropWhile p) := by
  rintro x t hx rfl
  rw [List.dropWhile_append_of_pos hx]
  exact (List.dropWhile_suffix p).length_le

theorem longest_scanNumeral (cs : List Char) :
    Longest (fun x => ∃ o : Option Numeral, (∀ n ∈ o, n.Written) ∧ x = countText o) cs (scanNumeral cs).2 := by
  rintro _ t ⟨o, ho, rfl⟩ heq
  by_cases hstar : cs.head? = some '*'
  · obtain ⟨rest, hrest⟩ := List.head?_eq_some_iff.1 hstar
    rw [hrest] at heq ⊢
    rw [scanNumeral_star]
    match o with
    | none =>
      have hlen := congrArg List.length heq
      simp only [countText, Option.elim_none, List.nil_append, List.length_cons] at hlen
      simp only
      omega
    | some .star =>
      have hlen := congrArg List.length heq
      simp [countText, Numeral.spelling] at hlen
      simp [hlen]
    | some (.digits []) => exact absurd rfl (ho _ rfl).1
    | some (.digits (d :: ds)) =>
      have hd := (ho _ rfl).2 d List.mem_cons_self
      rw [← (List.cons.inj heq).1] at hd
      exact absurd hd (by decide)
  · rw [scanNumeral_of_ne_star hstar]
    refine longest_dropWhile Char.isDigit cs (countText o) t ?_ heq
    match o with
    | none => simp [countText]
    | some .star =>
      rw [heq] at hstar
      exact absurd rfl hstar
    | some (.digits ds) => exact (ho _ rfl).2

theorem longest_scanPrecision (cs : List Char) :
    Longest (fun x => ∃ o : Option (Option Numeral), (∀ n ∈ o, ∀ k ∈ n, k.Written) ∧ x = precisionText o) cs
      (scanPrecision cs).2 := by
  rintro _ t ⟨o, ho, rfl⟩ heq
  have hle : (scanPrecision cs).2.length ≤ cs.length := by
    have hlen := congrArg List.length (scanPrecision_sound cs).1
    rw [List.length_append] at hlen
    omega
  cases o with
  | none =>
    simp only [precisionText, Option.elim_none, List.nil_append] at heq
    rwa [← heq]
  | some n =>
    subst heq
    exact longest_scanNumeral (countText n ++ t) (countText n) t ⟨n, ho n rfl, rfl⟩ rfl

theorem longest_takeLength (cs : List Char) :
    Longest (fun x => ∃ o : Option Length, x = lengthText o) cs (takeLength cs).2 := by
  rintro _ t ⟨o, rfl⟩ rfl
  -- the first character of a modifier is taken at least
  have hfirst : ∀ c ∈ ['h', 'l', 'I'], (takeLength (c :: t)).2.length ≤ t.length := by
    intro c hc
    simp only [List.mem_cons, List.not_mem_nil, or_false] at hc
    rcases hc with rfl | rfl | rfl <;> (unfold takeLength; split <;> simp_all <;> omega)
  cases o with
  | none => exact length_takeLength_le t
  | some l =>
    cases l with
    | short | long | pointer => exact hfirst _ (by simp)
    | _ => exact Nat.le_refl _

theorem Longest.mono {P Q : List Char → Prop} {cs rest : List Char} (h : Longest Q cs rest) (hPQ : ∀ x, P x → Q x) :
    Longest P cs rest :=
  fun x t hx heq => h x t (hPQ x hx) heq

theorem not_ends_of_mem_countText {o : Option Numeral} (ho : ∀ n ∈ o, n.Written) : ∀ c ∈ countText o, ¬Ends c := by
  intro c hc hends
  match o with
  | none => simp [countText] at hc
  | some .star =>
    simp only [countText, Option.elim_some, Numeral.spelling, List.mem_singleton] at hc
    exact hends.star hc
  | some (.digits ds) =>
    have hdigit := (ho _ rfl).2 c hc
    rw [hends.digit] at hdigit
    cases hdigit

theorem mem_precisionText {o : Option (Option Numeral)} (ho : ∀ n ∈ o, ∀ k ∈ n, k.Written) :
    ∀ c ∈ precisionText o, ¬(Ends c ∧ c ≠ '.') := by
  rintro c hc ⟨hends, hpoint⟩
  cases o with
  | none => simp [precisionText] at hc
  | some n =>
    rcases List.mem_cons.1 hc with rfl | hc
    · exact hpoint rfl
    · exact not_ends_of_mem_countText (ho n rfl) c hc hends

/-- The texts of what may follow the width of a stem. -/
def IsAfterWidth (x : List Char) : Prop :=
  ∃ (o : Option (Option Numeral)) (l : Option Length), (∀ n ∈ o, ∀ k ∈ n, k.Written) ∧ x = precisionText o ++ lengthText l

/-- The texts of what may follow the flags of a stem that has leading zeros as flags. -/
def IsAfterFlags (x : List Char) : Prop :=
  ∃ (o : Option Numeral) (b : List Char), ((∀ n ∈ o, n.Written) ∧ ∀ n ∈ o, n.spelling.head? ≠ some '0') ∧ IsAfterWidth b ∧
    x = countText o ++ b

theorem ends_head_lengthText (l : Option Length) : ∀ c ∈ (lengthText l).head?, Ends c ∧ c ≠ '.' := by
  have hhead : ∀ c ∈ (lengthText l ++ []).head?, Ends c ∧ c ≠ '.' := head_lengthText fun c hc => by cases hc
  rwa [List.append_nil] at hhead

theorem IsAfterWidth.head {x : List Char} (h : IsAfterWidth x) : ∀ c ∈ x.head?, Ends c := by
  obtain ⟨o, l, -, rfl⟩ := h
  exact head_precisionText fun c hc => (ends_head_lengthText l c hc).1

theorem IsAfterFlags.head {x : List Char} (h : IsAfterFlags x) : ∀ c ∈ x.head?, isFlag c = false := by
  obtain ⟨o, b, ⟨ho, hleading⟩, hb, rfl⟩ := h
  exact head_countText ho hleading hb.head

theorem length_afterWidth_le (cs : List Char) : (takeLength (scanPrecision cs).2).2.length ≤ cs.length := by
  have hlength := length_takeLength_le (scanPrecision cs).2
  have hprecision := congrArg List.length (scanPrecision_sound cs).1
  rw [List.length_append] at hprecision
  omega

theorem longest_afterWidth (cs : List Char) : Longest IsAfterWidth cs (takeLength (scanPrecision cs).2).2 := by
  obtain ⟨hcs, ho⟩ := scanPrecision_sound cs
  have hlongest := (longest_scanPrecision cs).append hcs (longest_takeLength _) (length_takeLength_le _)
    fun c hc b ⟨l, hl⟩ => mem_precisionText ho c hc (ends_head_lengthText l c (by simp [← hl]))
  exact hlongest.mono fun x ⟨o, l, hwritten, hx⟩ => ⟨_, _, hx, ⟨o, hwritten, rfl⟩, l, rfl⟩

theorem longest_afterFlags (cs : List Char) :
    Longest IsAfterFlags cs (takeLength (scanPrecision (scanNumeral cs).2).2).2 := by
  obtain ⟨hcs, ho⟩ := scanNumeral_sound cs
  have hlongest := (longest_scanNumeral cs).append hcs (longest_afterWidth _) (length_afterWidth_le _)
    fun c hc b hb => not_ends_of_mem_countText (fun n hn => (ho n hn).1) c hc (hb.head c rfl)
  exact hlongest.mono fun x ⟨o, b, ⟨hwritten, _⟩, hb, hx⟩ => ⟨_, b, hx, ⟨o, hwritten, rfl⟩, hb⟩

theorem length_afterFlags_le (cs : List Char) :
    (takeLength (scanPrecision (scanNumeral cs).2).2).2.length ≤ cs.length := by
  have hafter := length_afterWidth_le (scanNumeral cs).2
  have hwidth := congrArg List.length (scanNumeral_sound cs).1
  rw [List.length_append] at hwidth
  omega

/-- The stem that is scanned is the longest one that the text starts with. -/
theorem longest_scanStem {cs : List Char} {m : Stem} (hm : m.Written) (hpre : m.spelling <+: cs) :
    m.spelling.length ≤ (scanStem cs).1.spelling.length := by
  have hlongest := (longest_dropWhile isFlag cs).append List.takeWhile_append_dropWhile.symm (longest_afterFlags _)
    (length_afterFlags_le _) fun c hc b hb => by
      have hflag : isFlag c = true := List.mem_takeWhile_imp hc
      rw [hb.head c rfl] at hflag
      cases hflag
  obtain ⟨t, ht⟩ := hpre
  have hm' := hm.canonical
  have hle : (scanStem cs).2.length ≤ t.length := by
    refine hlongest m.canonical.spelling t ?_ (by rw [m.spelling_canonical, ht])
    exact ⟨_, _, rfl, hm'.flags, _, _, ⟨hm'.width, hm'.leading⟩, ⟨_, _, hm'.precision, rfl⟩, rfl⟩
  have hcs := congrArg List.length (scanStem_sound cs).1
  have hlen := congrArg List.length ht
  rw [List.length_append] at hcs hlen
  omega

end FlowLint.Format
