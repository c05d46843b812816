import FlowLint.CType

/-!
# Directives of format strings

A directive is a percent sign, flags, a width, a precision, a length modifier and a conversion. What argument it reads
depends on the encoding of the strings of the function that is called.
-/

namespace FlowLint.Format

/-- The characters that are flags. -/
def flagChars : List Char := ['-', '+', ' ', '#', '0', '\x27']

/-- A width or a precision. -/
inductive Count where
  | fixed (n : UInt32)
  | star
deriving DecidableEq, Repr, Inhabited

/-- Length modifiers. -/
inductive Length where
  | char
  | short
  | long
  | longLong
  | intmax
  | size
  | ptrdiff
  | longDouble
  | quad
  | int64
  | int32
  | pointer
  | wide
deriving DecidableEq, Repr, Inhabited

/-- Conversion characters. -/
inductive Conversion where
  | d | i
  | u | o | x | X
  | f | F | e | E | g | G | a | A
  | c | C
  | s | S
  | p
  | n
  | percent
deriving DecidableEq, Repr, Inhabited

/-- What an argument has to be. -/
inductive ArgumentKind where
  | signedInt
  | unsignedInt
  | float
  | char (e : Encoding)
  | string (e : Encoding)
  | pointer
  | countPointer
deriving DecidableEq, Repr, Inhabited

/-- A directive: where it starts, counted in bytes, how it is written, and its parts. -/
structure Directive where
  offset : Nat
  text : String
  flags : List Char
  width : Option Count
  precision : Option Count
  length : Option Length
  conversion : Conversion
deriving DecidableEq, Repr, Inhabited

/-- Why a format string is not read to its end. -/
inductive FormatError where
  | trailingPercent (offset : Nat)
  | unknownConversion (offset : Nat) (conversion : Char) (text : String)
deriving DecidableEq, Repr, Inhabited

/-- A format string: its directives up to the first error. -/
structure FormatString where
  directives : List Directive
  error : Option FormatError
deriving DecidableEq, Repr, Inhabited

/-- The spelling of a length modifier. -/
def Length.spelling : Length → List Char
  | .char => ['h', 'h']
  | .short => ['h']
  | .long => ['l']
  | .longLong => ['l', 'l']
  | .intmax => ['j']
  | .size => ['z']
  | .ptrdiff => ['t']
  | .longDouble => ['L']
  | .quad => ['q']
  | .int64 => ['I', '6', '4']
  | .int32 => ['I', '3', '2']
  | .pointer => ['I']
  | .wide => ['w']

namespace Conversion

/-- All conversions. -/
def all : List Conversion :=
  [.d, .i, .u, .o, .x, .X, .f, .F, .e, .E, .g, .G, .a, .A, .c, .C, .s, .S, .p, .n, .percent]

/-- The conversion character. -/
def letter : Conversion → Char
  | .d => 'd'
  | .i => 'i'
  | .u => 'u'
  | .o => 'o'
  | .x => 'x'
  | .X => 'X'
  | .f => 'f'
  | .F => 'F'
  | .e => 'e'
  | .E => 'E'
  | .g => 'g'
  | .G => 'G'
  | .a => 'a'
  | .A => 'A'
  | .c => 'c'
  | .C => 'C'
  | .s => 's'
  | .S => 'S'
  | .p => 'p'
  | .n => 'n'
  | .percent => '%'

/-- The conversion that a character stands for. -/
def ofLetter? (c : Char) : Option Conversion :=
  all.find? fun k => k.letter == c

/-- The conversion of a conversion character. -/
@[simp] theorem ofLetter?_letter (k : Conversion) : ofLetter? k.letter = some k := by
  cases k <;> rfl

/-- A character that stands for a conversion is its conversion character. -/
theorem letter_of_ofLetter? {c : Char} {k : Conversion} (h : ofLetter? c = some k) : k.letter = c := by
  unfold ofLetter? at h
  have := List.find?_some h
  exact eq_of_beq this

/-- Conversions of integers. -/
def isInteger : Conversion → Bool
  | .d | .i | .u | .o | .x | .X => true
  | _ => false

end Conversion

namespace ArgumentKind

/-- The C type that an argument is expected to have. -/
def render : ArgumentKind → String
  | .signedInt => "int"
  | .unsignedInt => "unsigned int"
  | .float => "double"
  | .char e => e.charName
  | .string e => e.charName ++ " *"
  | .pointer => "void *"
  | .countPointer => "int *"

end ArgumentKind

namespace Directive

/-- The encoding of text: a length modifier overrides the one that holds without it. -/
def textEncoding (d : Directive) (unmodified : Encoding) : Encoding :=
  match d.length with
  | some .long | some .wide => .wide
  | some .short => .narrow
  | _ => unmodified

/-- The encoding that the capital letters select under a function with strings of encoding `e`. -/
def otherEncoding (e : Encoding) : Encoding :=
  if e = .narrow then .wide else .narrow

/-- The argument that is converted, under a function with strings of encoding `e`; `%%` reads none. -/
def expected (d : Directive) (e : Encoding) : Option ArgumentKind :=
  match d.conversion with
  | .d | .i => some .signedInt
  | .u | .o | .x | .X => some .unsignedInt
  | .f | .F | .e | .E | .g | .G | .a | .A => some .float
  | .c => some (.char (d.textEncoding e))
  | .C => some (.char (d.textEncoding (otherEncoding e)))
  | .s => some (.string (d.textEncoding e))
  | .S => some (.string (d.textEncoding (otherEncoding e)))
  | .p => some .pointer
  | .n => some .countPointer
  | .percent => none

/-- The counts that are read from arguments: the width, then the precision. -/
def stars (d : Directive) : List Count :=
  ([d.width, d.precision].filterMap id).filter (· == .star)

/-- How many arguments the directive reads. -/
def consumes (d : Directive) : Nat :=
  d.stars.length + if d.conversion = .percent then 0 else 1

end Directive

namespace FormatError

/-- The error in words. -/
def message : FormatError → String
  | .trailingPercent offset => "trailing '%' at offset " ++ toString offset
  | .unknownConversion offset c text =>
    "unknown conversion '" ++ c.toString ++ "' in '" ++ text ++ "' at offset " ++ toString offset

end FormatError

namespace FormatString

/-- Whether reading stopped at an error. -/
def isMalformed (f : FormatString) : Bool := f.error.isSome

/-- How many arguments the directives read. -/
def argumentCount (f : FormatString) : Nat :=
  f.directives.foldr (fun d n => d.consumes + n) 0

end FormatString

end FlowLint.Format
