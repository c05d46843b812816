import FlowLint.Text.Digits
import FlowLint.Vocabulary

/-!
# YAML values and their shapes

The part of YAML that settings are written in: mappings and scalars. What a plain scalar denotes is up to who reads it: one and
the same text may be a string, a number or nothing at all. A quoted scalar is a string. A tag may say that a literal scalar
is not, and it may stand for a word by itself.
-/

namespace FlowLint

/-- How a scalar is written. -/
inductive ScalarStyle where
  | plain
  | quoted
  | literal
  | folded
deriving DecidableEq, Repr, Inhabited

/-- A YAML value. -/
inductive Yaml where
  | scalar (style : ScalarStyle) (tag : Option String) (text : String)
  | mapping (entries : List (String × Yaml))
deriving Repr, Inhabited

namespace Yaml

/-- A plain scalar. -/
def plain (text : String) : Yaml := .scalar .plain none text

/-- The value of a document without content. -/
def blank : Yaml := .plain ""

/-- The tag of a type that every reader knows. -/
def coreTag (type : String) : String := "tag:yaml.org,2002:" ++ type

/-- Texts that stand for nothing. -/
def nullWords : List String := ["~", "null", "Null", "NULL"]

/-- Whether a value stands for nothing. What is tagged to do so must be written like it. -/
def isNull? : Yaml → Option Bool
  | .scalar .plain none text => some (text = "" || nullWords.contains text)
  | .scalar .plain (some tag) text =>
    if tag = coreTag "null" then (if nullWords.contains text then some true else none) else some false
  | _ => some false

/-- The text of a scalar. -/
def string? : Yaml → Option String
  | .scalar _ _ text => some text
  | .mapping _ => none

/-- The text of a scalar that may denote a value of a type: a plain one, or a literal one with the tag of the type. -/
def typedText? (type : String) : Yaml → Option String
  | .scalar .plain _ text => some text
  | .scalar .literal (some tag) text => if tag = coreTag type then some text else none
  | _ => none

/-- A boolean. -/
def bool? (v : Yaml) : Option Bool := do
  let text ← v.typedText? "bool"
  if ["true", "True", "TRUE"].contains text then some true
  else if ["false", "False", "FALSE"].contains text then some false
  else none

/-- The number that the text of a plain scalar denotes. A zero in front of decimal digits makes it a string. -/
def natOf? (cs : List Char) : Option Nat :=
  match cs with
  | '0' :: 'x' :: digits => Text.number? 16 digits
  | '0' :: 'o' :: digits => Text.number? 8 digits
  | '0' :: 'b' :: digits => Text.number? 2 digits
  | ['0'] => some 0
  | '0' :: _ => none
  | digits => Text.number? 10 digits

/-- A natural number below a bound. -/
def nat? (bound : Nat) (v : Yaml) : Option Nat := do
  let cs := (← v.typedText? "int").toList
  (natOf? (if cs.head? = some '+' then cs.tail else cs)).filter (· < bound)

/-- A 32-bit word. -/
def uint32? (v : Yaml) : Option UInt32 := (v.nat? UInt32.size).map UInt32.ofNat

/-- A 64-bit word. -/
def uint64? (v : Yaml) : Option UInt64 := (v.nat? UInt64.size).map UInt64.ofNat

/-- The word that a scalar is: its text, or its tag if that is a private one and nothing else is written. -/
def wordText? : Yaml → Option String
  | .scalar style (some tag) text =>
    match tag.toList with
    | '!' :: name => if style = .plain ∧ (text = "" ∨ nullWords.contains text) then some (String.ofList name) else none
    | _ => some text
  | .scalar _ none text => some text
  | .mapping _ => none

/-- A word of a vocabulary. -/
def word? {α : Type} [Vocabulary α] (v : Yaml) : Option α := v.wordText?.bind Vocabulary.ofWord?

/-- The entries of a mapping whose keys are among given ones, each at most once. A document without content has none. -/
def entries? (keys : List String) : Yaml → Option (List (String × Yaml))
  | .mapping entries =>
    if (entries.map (·.1)).all keys.contains ∧ (entries.map (·.1)).Nodup then some entries else none
  | .scalar .plain _ "" => some []
  | .scalar _ _ _ => none

/-- An entry that may be missing or stand for nothing. -/
def optional {α : Type} (entries : List (String × Yaml)) (key : String) (read : Yaml → Option α) : Option (Option α) :=
  match entries.find? fun e => e.1 == key with
  | none => some none
  | some e => e.2.isNull?.bind fun missing => if missing then some none else (read e.2).map some

/-! ## Writing -/

/-- A word of a vocabulary. -/
def ofWord {α : Type} [Vocabulary α] (a : α) : Yaml := .plain (Vocabulary.word a)

/-- A natural number. -/
def ofNat (n : Nat) : Yaml := .plain (toString n)

/-- A boolean. -/
def ofBool (b : Bool) : Yaml := .plain (if b then "true" else "false")

/-- An entry that is left out if there is no value. -/
def entryIfAny {α : Type} (key : String) (write : α → Yaml) (value : Option α) : List (String × Yaml) :=
  (value.map fun a => (key, write a)).toList

mutual

/-- A value behind its key, whose entries are indented by `indent` blanks. -/
def valueText (indent : Nat) : Yaml → List Char
  | .scalar _ _ text => ' ' :: text.toList ++ ['\n']
  | .mapping entries => '\n' :: entriesText indent entries

/-- The entries of a mapping, one below the other and indented by `indent` blanks. -/
def entriesText (indent : Nat) : List (String × Yaml) → List Char
  | [] => []
  | (key, v) :: rest =>
    List.replicate indent ' ' ++ key.toList ++ ':' :: v.valueText (indent + 2) ++ entriesText indent rest

end

end Yaml

end FlowLint
