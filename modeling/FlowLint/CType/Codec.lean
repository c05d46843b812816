import FlowLint.CType
import FlowLint.Json

/-!
# Types in snapshots

A type is written as an object with its kind and, if it has parts, what it is a kind of. The parts may come before the
kind, and are then read as a whole.
-/

namespace FlowLint

instance : Vocabulary CharType where
  members := [.char, .signedChar, .unsignedChar, .wchar, .char16, .char32]
  word
    | .char => "char"
    | .signedChar => "signed_char"
    | .unsignedChar => "unsigned_char"
    | .wchar => "w_char"
    | .char16 => "char16"
    | .char32 => "char32"
  find_word a := by cases a <;> rfl

instance : Vocabulary Encoding where
  members := [.narrow, .wide, .utf16, .utf32]
  word
    | .narrow => "narrow"
    | .wide => "wide"
    | .utf16 => "utf16"
    | .utf32 => "utf32"
  find_word a := by cases a <;> rfl

instance : Vocabulary IntType where
  members := [.short, .unsignedShort, .int, .unsignedInt, .long, .unsignedLong, .longLong, .unsignedLongLong, .sizeT,
    .ssizeT, .ptrdiffT, .intmaxT, .uintmaxT, .intptrT, .uintptrT]
  word
    | .short => "short"
    | .unsignedShort => "u_short"
    | .int => "int"
    | .unsignedInt => "u_int"
    | .long => "long"
    | .unsignedLong => "u_long"
    | .longLong => "long_long"
    | .unsignedLongLong => "u_long_long"
    | .sizeT => "size_t"
    | .ssizeT => "s_size_t"
    | .ptrdiffT => "ptr_diff_t"
    | .intmaxT => "int_max_t"
    | .uintmaxT => "u_int_max_t"
    | .intptrT => "int_ptr_t"
    | .uintptrT => "u_int_ptr_t"
  find_word a := by cases a <;> rfl

instance : Vocabulary FloatType where
  members := [.float, .double, .longDouble]
  word
    | .float => "float"
    | .double => "double"
    | .longDouble => "long_double"
  find_word a := by cases a <;> rfl

namespace CType

/-- A type as a JSON value. -/
def toJson : CType → Json
  | .void => .object [("kind", .string "void")]
  | .bool => .object [("kind", .string "bool")]
  | .char c => .object [("kind", .string "char"), ("of", .ofWord c)]
  | .int i => .object [("kind", .string "int"), ("of", .ofWord i)]
  | .float f => .object [("kind", .string "float"), ("of", .ofWord f)]
  | .pointer t => .object [("kind", .string "pointer"), ("of", t.toJson)]
  | .reference t => .object [("kind", .string "reference"), ("of", t.toJson)]
  | .array t n =>
    .object [("kind", .string "array"),
      ("of", .object [("element", t.toJson), ("len", .ofOption (fun n => .ofNat n.toNat) n)])]
  | .record name => .object [("kind", .string "record"), ("of", .string name)]
  | .enum name => .object [("kind", .string "enum"), ("of", .string name)]
  | .nullptr => .object [("kind", .string "null_ptr")]
  | .unknown => .object [("kind", .string "unknown")]

/-- A type without parts, for which only `null` may be given as parts. -/
def plain (t : CType) (parts : Option Json) : Option CType :=
  match parts with
  | none | some .null => some t
  | some _ => none

/-- Whether parts that come before the kind can be read as a whole. -/
def partsInOrder : List (String × Json) → Bool
  | [] => true
  | (key, v) :: fields => if key = "kind" then true else (key != "of" || v.readable) && partsInOrder fields

/-- The parts of a type, if there are any. -/
def parts? (fields : List (String × Json)) : Option (Option Json) :=
  if partsInOrder fields then Json.defaulted fields "of" none (fun v => some (some v)) else none

/-- Whether parts come before the kind. -/
def partsFirst (fields : List (String × Json)) : Bool :=
  (fields.find? fun f => f.1 == "kind" || f.1 == "of").any fun f => f.1 == "of"

/-- A type from a JSON value in which types are nested fewer than `fuel` deep, perhaps one that is read as a whole. -/
def read (fuel : Nat) (whole : Bool) (v : Json) : Option CType :=
  match fuel, v with
  | fuel + 1, .object fields => do
    let kind ← Json.required fields "kind" (Json.name? whole)
    let parts ← parts? fields
    let whole := whole || partsFirst fields
    match kind, parts with
    | "void", p => plain .void p
    | "bool", p => plain .bool p
    | "null_ptr", p => plain .nullptr p
    | "unknown", p => plain .unknown p
    | "char", some p => (p.wordWithin? whole).map .char
    | "int", some p => (p.wordWithin? whole).map .int
    | "float", some p => (p.wordWithin? whole).map .float
    | "pointer", some p => (read fuel whole p).map .pointer
    | "reference", some p => (read fuel whole p).map .reference
    | "record", some p => p.string?.map .record
    | "enum", some p => p.string?.map .enum
    | "array", some (.object parts) => do
      let element ← Json.required parts "element" (read fuel whole)
      let length ← Json.optional parts "len" Json.uint64?
      some (.array element length)
    | _, _ => none
  | _, _ => none

/-- A type from a JSON value. -/
def ofJson? (v : Json) : Option CType := read (v.depth + 1) false v

/-- A type from a part of a JSON value that is read as a whole. -/
def ofWhole? (v : Json) : Option CType := read (v.depth + 1) true v

end CType

end FlowLint
