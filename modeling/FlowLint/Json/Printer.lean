import FlowLint.Json

/-!
# JSON text from values

`compact` writes a value without blanks. `pretty` writes one item or field a line, indented by two spaces a level, with
empty arrays and objects closed on the spot. A quote, a backslash and the control characters below space are escaped and
all else stands for itself.
-/

namespace FlowLint.Json

/-- The escaped form of a character of a string. -/
def escape (c : Char) : List Char :=
  match c with
  | '"' => ['\\', '"']
  | '\\' => ['\\', '\\']
  | '\n' => ['\\', 'n']
  | '\r' => ['\\', 'r']
  | '\t' => ['\\', 't']
  | '\x08' => ['\\', 'b']
  | '\x0c' => ['\\', 'f']
  | c =>
    if c.toNat < 32 then ['\\', 'u', '0', '0', Nat.digitChar (c.toNat / 16), Nat.digitChar (c.toNat % 16)]
    else [c]

/-- A string between quotes. -/
def quote (s : String) : List Char :=
  '"' :: s.toList.flatMap escape ++ ['"']

/-- The decimal digits of an integer, with a minus sign for a negative one. -/
def intText (n : Int) : List Char :=
  if n < 0 then '-' :: Nat.toDigits 10 n.natAbs else Nat.toDigits 10 n.natAbs

/-- The text of a value without parts. -/
def scalarText : Json → List Char
  | .bool b => (if b then "true" else "false").toList
  | .int n => intText n
  | .float x => x.text
  | .string s => quote s
  | _ => "null".toList

mutual

/-- The text of a value without blanks. -/
def compact : Json → List Char
  | .array items => '[' :: compactItems items ++ [']']
  | .object fields => '\x7b' :: compactFields fields ++ ['\x7d']
  | v => scalarText v

/-- The items of an array, divided by commas. -/
def compactItems : List Json → List Char
  | [] => []
  | [v] => v.compact
  | v :: vs => v.compact ++ ',' :: compactItems vs

/-- The fields of an object, divided by commas. -/
def compactFields : List (String × Json) → List Char
  | [] => []
  | [(k, v)] => quote k ++ ':' :: v.compact
  | (k, v) :: fs => quote k ++ ':' :: v.compact ++ ',' :: compactFields fs

end

/-- A line break and the indentation of a level. -/
def newline (level : Nat) : List Char :=
  '\n' :: List.replicate (2 * level) ' '

mutual

/-- The text of a value in lines, where the line it starts on is indented by `level`. -/
def pretty (level : Nat) : Json → List Char
  | .array [] => ['[', ']']
  | .array items => '[' :: prettyItems (level + 1) items ++ newline level ++ [']']
  | .object [] => ['\x7b', '\x7d']
  | .object fields => '\x7b' :: prettyFields (level + 1) fields ++ newline level ++ ['\x7d']
  | v => scalarText v

/-- The items of an array, each on a line of its own. -/
def prettyItems (level : Nat) : List Json → List Char
  | [] => []
  | [v] => newline level ++ v.pretty level
  | v :: vs => newline level ++ v.pretty level ++ ',' :: prettyItems level vs

/-- The fields of an object, each on a line of its own. -/
def prettyFields (level : Nat) : List (String × Json) → List Char
  | [] => []
  | [(k, v)] => newline level ++ quote k ++ ':' :: ' ' :: v.pretty level
  | (k, v) :: fs => newline level ++ quote k ++ ':' :: ' ' :: v.pretty level ++ ',' :: prettyFields level fs

end

/-- The compact text as a string. -/
def line (v : Json) : String :=
  String.ofList v.compact

/-- The text in lines as a string. -/
def lines (v : Json) : String :=
  String.ofList (v.pretty 0)

end FlowLint.Json
