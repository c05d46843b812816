import FlowLint.Format.Directive

/-!
# Reading format strings

The text between directives is passed over. A directive is read greedily from left to right: all flags, then a width, a
precision behind a point, a length modifier and one character for the conversion. Reading stops at the first directive
whose conversion is missing or unknown. Offsets count the bytes of the text in UTF-8.
-/

namespace FlowLint.Format

/-- The number of bytes of a text. -/
def byteSize (cs : List Char) : Nat := cs.foldr (fun c n => c.utf8Size + n) 0

/-- Whether a character is a flag. -/
def isFlag (c : Char) : Bool := flagChars.contains c

/-- The number that digits stand for, or the largest count if it is beyond. -/
def countOfDigits (ds : List Char) : UInt32 :=
  UInt32.ofNat (ds.foldl (fun n c => min (n * 10 + (c.toNat - '0'.toNat)) (UInt32.size - 1)) 0)

/-- The count at the start of a text, and the text behind it. -/
def takeCount (cs : List Char) : Option Count × List Char :=
  match cs with
  | '*' :: rest => (some .star, rest)
  | cs =>
    let digits := cs.takeWhile Char.isDigit
    (if digits.isEmpty then none else some (.fixed (countOfDigits digits)), cs.dropWhile Char.isDigit)

/-- The precision at the start of a text, and the text behind it. A point alone means zero. -/
def takePrecision (cs : List Char) : Option Count × List Char :=
  match cs with
  | '.' :: rest => (some ((takeCount rest).1.getD (.fixed 0)), (takeCount rest).2)
  | cs => (none, cs)

/-- The longest length modifier at the start of a text, and the text behind it. -/
def takeLength (cs : List Char) : Option Length × List Char :=
  match cs with
  | 'h' :: 'h' :: rest => (some .char, rest)
  | 'h' :: rest => (some .short, rest)
  | 'l' :: 'l' :: rest => (some .longLong, rest)
  | 'l' :: rest => (some .long, rest)
  | 'I' :: '6' :: '4' :: rest => (some .int64, rest)
  | 'I' :: '3' :: '2' :: rest => (some .int32, rest)
  | 'I' :: rest => (some .pointer, rest)
  | 'j' :: rest => (some .intmax, rest)
  | 'z' :: rest => (some .size, rest)
  | 't' :: rest => (some .ptrdiff, rest)
  | 'L' :: rest => (some .longDouble, rest)
  | 'q' :: rest => (some .quad, rest)
  | 'w' :: rest => (some .wide, rest)
  | cs => (none, cs)

/-- The parts of a directive before its conversion, and the text from the conversion on. -/
structure Modifiers where
  flags : List Char
  width : Option Count
  precision : Option Count
  length : Option Length
  rest : List Char
deriving Repr

/-- The modifiers behind a percent sign. -/
def takeModifiers (cs : List Char) : Modifiers :=
  let (width, afterWidth) := takeCount (cs.dropWhile isFlag)
  let (precision, afterPrecision) := takePrecision afterWidth
  let (length, rest) := takeLength afterPrecision
  { flags := flagChars.filter (cs.takeWhile isFlag).contains, width, precision, length, rest }

/-- A count is not longer than the text it is taken from. -/
theorem length_takeCount_le (cs : List Char) : (takeCount cs).2.length ≤ cs.length := by
  unfold takeCount
  split
  · simp
  · exact List.IsSuffix.length_le (List.dropWhile_suffix _)

/-- A precision is not longer than the text it is taken from. -/
theorem length_takePrecision_le (cs : List Char) : (takePrecision cs).2.length ≤ cs.length := by
  unfold takePrecision
  split
  · have := length_takeCount_le ‹_›
    simp only [List.length_cons]
    omega
  · simp

/-- A length modifier is not longer than the text it is taken from. -/
theorem length_takeLength_le (cs : List Char) : (takeLength cs).2.length ≤ cs.length := by
  unfold takeLength
  split <;> simp only [List.length_cons] <;> omega

/-- The modifiers are not longer than the text they are taken from. -/
theorem length_takeModifiers_le (cs : List Char) : (takeModifiers cs).rest.length ≤ cs.length := by
  have h1 := length_takeLength_le (takePrecision (takeCount (cs.dropWhile isFlag)).2).2
  have h2 := length_takePrecision_le (takeCount (cs.dropWhile isFlag)).2
  have h3 := length_takeCount_le (cs.dropWhile isFlag)
  have h4 := List.IsSuffix.length_le (List.dropWhile_suffix (l := cs) isFlag)
  simp only [takeModifiers]
  omega

/-- The start of `cs` that is left when `rest` is taken off its end. -/
def textBefore (cs rest : List Char) : List Char :=
  cs.take (cs.length - rest.length)

/-- The directives of a text that starts at an offset. -/
def parseAt (offset : Nat) (cs : List Char) : FormatString :=
  match cs with
  | [] => ⟨[], none⟩
  | c :: cs =>
    if c = '%' then
      let m := takeModifiers cs
      match _h : m.rest with
      | [] => ⟨[], some (.trailingPercent offset)⟩
      | k :: rest =>
        let text := '%' :: textBefore cs rest
        match Conversion.ofLetter? k with
        | none => ⟨[], some (.unknownConversion offset k (String.ofList text))⟩
        | some conversion =>
          let directive :=
            { offset, text := String.ofList text, flags := m.flags, width := m.width, precision := m.precision,
              length := m.length, conversion }
          let following := parseAt (offset + byteSize text) rest
          { following with directives := directive :: following.directives }
    else parseAt (offset + c.utf8Size) cs
termination_by cs.length
decreasing_by
  · have := length_takeModifiers_le cs
    simp only [m] at _h
    rw [_h] at this
    simp only [List.length_cons] at this ⊢
    omega
  · simp

/-- The directives of a format string. -/
def parse (format : String) : FormatString :=
  parseAt 0 format.toList

end FlowLint.Format
