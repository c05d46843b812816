import FlowLint.Vocabulary

/-!
# C and C++ types

The types of variables and expressions, told apart as far as the checks need: integral, floating and pointer-like types,
the encodings of characters, and enough structure to write a type in C syntax. A reference stands for the type it refers
to in every question asked here but `isReference`.
-/

namespace FlowLint

/-- Character types. -/
inductive CharType where
  | char
  | signedChar
  | unsignedChar
  | wchar
  | char16
  | char32
deriving DecidableEq, Repr, Inhabited

/-- Encodings of characters and string literals. -/
inductive Encoding where
  | narrow
  | wide
  | utf16
  | utf32
deriving DecidableEq, Repr, Inhabited

/-- Integer types other than `bool` and the character types. -/
inductive IntType where
  | short
  | unsignedShort
  | int
  | unsignedInt
  | long
  | unsignedLong
  | longLong
  | unsignedLongLong
  | sizeT
  | ssizeT
  | ptrdiffT
  | intmaxT
  | uintmaxT
  | intptrT
  | uintptrT
deriving DecidableEq, Repr, Inhabited

/-- Floating types. -/
inductive FloatType where
  | float
  | double
  | longDouble
deriving DecidableEq, Repr, Inhabited

/-- Types of variables and expressions. -/
inductive CType where
  | void
  | bool
  | char (c : CharType)
  | int (i : IntType)
  | float (f : FloatType)
  | pointer (pointee : CType)
  | reference (referent : CType)
  | array (element : CType) (length : Option UInt64)
  | record (name : String)
  | enum (name : String)
  | nullptr
  | unknown
deriving DecidableEq, Repr, Inhabited

namespace CharType

/-- The C name of a character type. -/
def name : CharType → String
  | .char => "char"
  | .signedChar => "signed char"
  | .unsignedChar => "unsigned char"
  | .wchar => "wchar_t"
  | .char16 => "char16_t"
  | .char32 => "char32_t"

/-- The encoding of the strings with this element type. -/
def encoding : CharType → Encoding
  | .char | .signedChar | .unsignedChar => .narrow
  | .wchar => .wide
  | .char16 => .utf16
  | .char32 => .utf32

end CharType

namespace Encoding

/-- The element type of a string literal. -/
def charType : Encoding → CharType
  | .narrow => .char
  | .wide => .wchar
  | .utf16 => .char16
  | .utf32 => .char32

/-- The C name of the element type. -/
def charName (e : Encoding) : String := e.charType.name

end Encoding

/-- The C name of an integer type. -/
def IntType.name : IntType → String
  | .short => "short"
  | .unsignedShort => "unsigned short"
  | .int => "int"
  | .unsignedInt => "unsigned int"
  | .long => "long"
  | .unsignedLong => "unsigned long"
  | .longLong => "long long"
  | .unsignedLongLong => "unsigned long long"
  | .sizeT => "size_t"
  | .ssizeT => "ssize_t"
  | .ptrdiffT => "ptrdiff_t"
  | .intmaxT => "intmax_t"
  | .uintmaxT => "uintmax_t"
  | .intptrT => "intptr_t"
  | .uintptrT => "uintptr_t"

/-- The C name of a floating type. -/
def FloatType.name : FloatType → String
  | .float => "float"
  | .double => "double"
  | .longDouble => "long double"

namespace CType

/-- A type in C syntax. -/
def render : CType → String
  | .void => "void"
  | .bool => "bool"
  | .char c => c.name
  | .int i => i.name
  | .float f => f.name
  | .pointer t => t.render ++ " *"
  | .reference t => t.render ++ " &"
  | .array t (some n) => t.render ++ "[" ++ toString n ++ "]"
  | .array t none => t.render ++ "[]"
  | .record name => name
  | .enum name => name
  | .nullptr => "nullptr_t"
  | .unknown => "<unknown>"

/-- The type a reference refers to, and any other type itself. -/
def referent : CType → CType
  | .reference t => t
  | t => t

/-- `bool`, characters, integers and enumerations. -/
def isIntegral (t : CType) : Bool :=
  match t.referent with
  | .bool | .char _ | .int _ | .enum _ => true
  | _ => false

/-- Floating types. -/
def isFloating (t : CType) : Bool :=
  match t.referent with
  | .float _ => true
  | _ => false

/-- Pointers. -/
def isPointer (t : CType) : Bool :=
  match t.referent with
  | .pointer _ => true
  | _ => false

/-- References. -/
def isReference : CType → Bool
  | .reference _ => true
  | _ => false

/-- Arrays. -/
def isArray (t : CType) : Bool :=
  match t.referent with
  | .array _ _ => true
  | _ => false

/-- Pointers, arrays and the type of `nullptr`. -/
def isPointerLike (t : CType) : Bool :=
  match t.referent with
  | .pointer _ | .array _ _ | .nullptr => true
  | _ => false

/-- Types the front end could not determine. -/
def isUnknown (t : CType) : Bool :=
  match t.referent with
  | .unknown => true
  | _ => false

/-- What a pointer points to, and the element of an array. -/
def pointee (t : CType) : Option CType :=
  match t.referent with
  | .pointer t => some t
  | .array t _ => some t
  | _ => none

end CType

end FlowLint
