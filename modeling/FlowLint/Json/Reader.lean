import FlowLint.Json
import FlowLint.Text.Digits

/-!
# JSON values from text

The text is cut into tokens and the tokens are read as one value. An integer beyond 64 bits and minus zero are read as
floating-point numbers. A string with a lone surrogate, a number out of range, an object with an unreadable key and an
array or object nested deeper than `maxDepth` are read as `unreadable`: `read?` admits them, `readWhole?` does not.
-/

namespace FlowLint.Json

/-- The deepest nesting of arrays and objects that is read. -/
def maxDepth : Nat := 127

/-- The parts of a text: punctuation, the literal names, numbers, and strings, which lack a value if they hold a lone
surrogate. -/
inductive Token where
  | beginArray
  | endArray
  | beginObject
  | endObject
  | colon
  | comma
  | scalar (v : Json)
  | string (s : Option String)
deriving Inhabited

/-! ## Strings -/

/-- The value of four hexadecimal digits. -/
def hex4? (a b c d : Char) : Option Nat := do
  let a ← Text.digit? 16 a
  let b ← Text.digit? 16 b
  let c ← Text.digit? 16 c
  let d ← Text.digit? 16 d
  some (((a * 16 + b) * 16 + c) * 16 + d)

/-- Whether a code unit opens a surrogate pair. -/
def isHighSurrogate (n : Nat) : Bool := 0xD800 ≤ n && n < 0xDC00

/-- Whether a code unit closes a surrogate pair. -/
def isLowSurrogate (n : Nat) : Bool := 0xDC00 ≤ n && n < 0xE000

/-- The character that an escape of one letter stands for. -/
def unescape? (c : Char) : Option Char :=
  match c with
  | '"' => some '"'
  | '\\' => some '\\'
  | '/' => some '/'
  | 'b' => some '\x08'
  | 'f' => some '\x0c'
  | 'n' => some '\n'
  | 'r' => some '\r'
  | 't' => some '\t'
  | _ => none

/-- The code units of a string behind its opening quote, up to the closing one, and the text behind that. A code unit is a
code point, and a surrogate where an escape gives one. -/
def codeUnits : List Char → Option (List Nat × List Char)
  | '"' :: rest => some ([], rest)
  | '\\' :: 'u' :: a :: b :: c :: d :: rest => do
    let n ← hex4? a b c d
    let (units, rest) ← codeUnits rest
    some (n :: units, rest)
  | '\\' :: e :: rest => do
    let c ← unescape? e
    let (units, rest) ← codeUnits rest
    some (c.toNat :: units, rest)
  | c :: rest =>
    if c.toNat < 32 then none
    else do
      let (units, rest) ← codeUnits rest
      some (c.toNat :: units, rest)
  | [] => none

/-- The characters of code units, in which surrogates come in pairs only. -/
def pairUnits : List Nat → Option (List Char)
  | [] => some []
  | n :: m :: rest =>
    if isHighSurrogate n then
      if isLowSurrogate m then
        (pairUnits rest).map (Char.ofNat (0x10000 + (n - 0xD800) * 0x400 + (m - 0xDC00)) :: ·)
      else none
    else if isLowSurrogate n then none
    else (pairUnits (m :: rest)).map (Char.ofNat n :: ·)
  | [n] => if isHighSurrogate n || isLowSurrogate n then none else some [Char.ofNat n]

/-! ## Numbers -/

/-- The value of a decimal digit. -/
def digitValue (c : Char) : Nat := c.toNat - '0'.toNat

/-- The digits that a significand of 64 bits takes up, and those that are left. -/
def takeDigits (significand : Nat) : List Char → Nat × List Char
  | [] => (significand, [])
  | c :: cs =>
    let next := significand * 10 + digitValue c
    if next < UInt64.size then takeDigits next cs else (significand, c :: cs)

/-- The value of a run of digits. -/
def natOfDigits (cs : List Char) : Nat :=
  cs.foldl (fun n c => n * 10 + digitValue c) 0

/-- A number with digits behind the point, or with an exponent, or beyond 64 bits. Digits that the significand has no room
for count as zeros. -/
def floatOf (negative : Bool) (whole places : List Char) (power : Int) : Json :=
  let (significand, dropped) := takeDigits 0 whole
  let (significand, unread) := takeDigits significand places
  let e : Int := dropped.length - (places.length - unread.length : Nat) + power
  match Binary64.ofDecimal? significand e with
  | some x => .float (x.signed negative)
  | none => .unreadable

/-- A number without point and exponent. -/
def integerOf (negative : Bool) (whole : List Char) : Json :=
  let n := natOfDigits whole
  if negative then
    if 0 < n ∧ Int64.minValue.toInt ≤ -(n : Int) then .int (-n) else floatOf true whole [] 0
  else if n < UInt64.size then .int n
  else floatOf false whole [] 0

/-- The whole part: one zero, or digits that do not start with one. -/
def wholePart? (cs : List Char) : Option (List Char × List Char) :=
  match cs with
  | '0' :: rest => if (rest.head?.map Char.isDigit).getD false then none else some (['0'], rest)
  | _ =>
    let digits := cs.takeWhile Char.isDigit
    if digits.isEmpty then none else some (digits, cs.dropWhile Char.isDigit)

/-- The places behind the point, at least one if there is a point. -/
def placesPart? (cs : List Char) : Option (Option (List Char) × List Char) :=
  match cs with
  | '.' :: rest =>
    let digits := rest.takeWhile Char.isDigit
    if digits.isEmpty then none else some (some digits, rest.dropWhile Char.isDigit)
  | _ => some (none, cs)

/-- The sign and the digits of an exponent, at least one. -/
def powerDigits? (cs : List Char) : Option (Int × List Char) :=
  let (negative, cs) :=
    match cs with
    | '-' :: rest => (true, rest)
    | '+' :: rest => (false, rest)
    | _ => (false, cs)
  let digits := cs.takeWhile Char.isDigit
  if digits.isEmpty then none
  else
    let n := natOfDigits digits
    some (if negative then -(n : Int) else n, cs.dropWhile Char.isDigit)

/-- The exponent, if there is one. -/
def powerPart? (cs : List Char) : Option (Option Int × List Char) :=
  match cs with
  | c :: rest =>
    if c = 'e' ∨ c = 'E' then (powerDigits? rest).map fun (n, rest) => (some n, rest)
    else some (none, cs)
  | [] => some (none, [])

/-- A number at the start of a text. -/
def number? (cs : List Char) : Option (Json × List Char) := do
  let (negative, cs) :=
    match cs with
    | '-' :: rest => (true, rest)
    | _ => (false, cs)
  let (whole, cs) ← wholePart? cs
  let (places, cs) ← placesPart? cs
  let (power, cs) ← powerPart? cs
  match places, power with
  | none, none => some (integerOf negative whole, cs)
  | _, _ => some (floatOf negative whole (places.getD []) (power.getD 0), cs)

/-! ## Tokens -/

/-- Whether a character is a blank between tokens. -/
def isBlank (c : Char) : Bool :=
  c == ' ' || c == '\n' || c == '\t' || c == '\r'

/-- The token at the start of a text that does not start with a blank. -/
def token? : List Char → Option (Token × List Char)
  | '[' :: rest => some (.beginArray, rest)
  | ']' :: rest => some (.endArray, rest)
  | '\x7b' :: rest => some (.beginObject, rest)
  | '\x7d' :: rest => some (.endObject, rest)
  | ':' :: rest => some (.colon, rest)
  | ',' :: rest => some (.comma, rest)
  | 'n' :: 'u' :: 'l' :: 'l' :: rest => some (.scalar .null, rest)
  | 't' :: 'r' :: 'u' :: 'e' :: rest => some (.scalar (.bool true), rest)
  | 'f' :: 'a' :: 'l' :: 's' :: 'e' :: rest => some (.scalar (.bool false), rest)
  | '"' :: rest => (codeUnits rest).map fun (units, rest) => (.string ((pairUnits units).map String.ofList), rest)
  | cs => (number? cs).map fun (v, rest) => (.scalar v, rest)

/-- The tokens of a text, at most `fuel` characters long. -/
def tokens (fuel : Nat) (cs : List Char) : Option (List Token) :=
  match fuel with
  | 0 => if cs.isEmpty then some [] else none
  | fuel + 1 =>
    match cs with
    | [] => some []
    | c :: rest =>
      if isBlank c then tokens fuel rest
      else do
        let (t, rest) ← token? (c :: rest)
        let ts ← tokens fuel rest
        some (t :: ts)

/-! ## Values -/

/-- A container inside `level` others, unless that is too deep. -/
def bounded (level : Nat) (v : Json) : Json :=
  if level < maxDepth then v else .unreadable

/-- The object of fields with readable keys. -/
def ofFields (fields : List (Option String × Json)) : Json :=
  match fields.mapM fun f => f.1.map fun k => (k, f.2) with
  | some fields => .object fields
  | none => .unreadable

mutual

/-- The value at the start of the tokens, inside `level` arrays and objects. -/
def value? (fuel level : Nat) (ts : List Token) : Option (Json × List Token) :=
  match fuel with
  | 0 => none
  | fuel + 1 =>
    match ts with
    | .scalar v :: ts => some (v, ts)
    | .string (some s) :: ts => some (.string s, ts)
    | .string none :: ts => some (.unreadable, ts)
    | .beginArray :: .endArray :: ts => some (bounded level (.array []), ts)
    | .beginArray :: ts => do
      let (items, ts) ← items? fuel (level + 1) ts
      some (bounded level (.array items), ts)
    | .beginObject :: .endObject :: ts => some (bounded level (.object []), ts)
    | .beginObject :: ts => do
      let (fields, ts) ← fieldsAt? fuel (level + 1) ts
      some (bounded level (ofFields fields), ts)
    | _ => none

/-- The items of an array up to its closing bracket, at least one. -/
def items? (fuel level : Nat) (ts : List Token) : Option (List Json × List Token) :=
  match fuel with
  | 0 => none
  | fuel + 1 => do
    let (v, ts) ← value? fuel level ts
    match ts with
    | .endArray :: ts => some ([v], ts)
    | .comma :: ts =>
      let (vs, ts) ← items? fuel level ts
      some (v :: vs, ts)
    | _ => none

/-- The fields of an object up to its closing brace, at least one. -/
def fieldsAt? (fuel level : Nat) (ts : List Token) : Option (List (Option String × Json) × List Token) :=
  match fuel with
  | 0 => none
  | fuel + 1 =>
    match ts with
    | .string k :: .colon :: ts => do
      let (v, ts) ← value? fuel level ts
      match ts with
      | .endObject :: ts => some ([(k, v)], ts)
      | .comma :: ts =>
        let (fs, ts) ← fieldsAt? fuel level ts
        some ((k, v) :: fs, ts)
      | _ => none
    | _ => none

end

/-- The value of a text. -/
def read? (text : String) : Option Json := do
  let cs := text.toList
  let ts ← tokens cs.length cs
  let (v, rest) ← value? (2 * ts.length + 1) 0 ts
  if rest.isEmpty then some v else none

/-- The value of a text that is readable at every depth. -/
def readWhole? (text : String) : Option Json :=
  (read? text).filter readable

end FlowLint.Json
