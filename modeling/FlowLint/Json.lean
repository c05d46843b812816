import FlowLint.Vocabulary
import FlowLint.Binary64

/-!
# JSON values and their shapes

A value keeps the fields of an object in written order, repeated keys included, so that a reader of a shape can refuse a
field that is given twice. A shape is read by functions into `Option`: `none` means that the value does not have it.
A required field is there once; a nullable field may be missing or `null`; a defaulted field may be missing. Unknown
fields are passed over. A value whose shape depends on what comes behind its front is read as a whole, and within it more
ways to write an alternative without parts are admitted.
-/

namespace FlowLint

/-- A JSON value. A number is an integer of at most 64 bits, signed or unsigned, or a binary floating-point number.
`unreadable` stands for a text that has the form of a value but denotes none: a lone surrogate, a number out of range or a
nesting beyond the limit. It may stand only where nothing looks at it. -/
inductive Json where
  | null
  | bool (b : Bool)
  | int (n : Int)
  | float (x : Binary64)
  | string (s : String)
  | array (items : List Json)
  | object (fields : List (String × Json))
  | unreadable
deriving Repr, Inhabited

namespace Json

mutual

/-- Whether a value denotes something at every depth. -/
def readable : Json → Bool
  | .array items => readableItems items
  | .object fields => readableFields fields
  | .unreadable => false
  | _ => true

/-- Whether all items are readable. -/
def readableItems : List Json → Bool
  | [] => true
  | v :: vs => v.readable && readableItems vs

/-- Whether all fields are readable. -/
def readableFields : List (String × Json) → Bool
  | [] => true
  | (_, v) :: fs => v.readable && readableFields fs

end

mutual

/-- How deep arrays and objects are nested in a value. -/
def depth : Json → Nat
  | .array items => depthItems items + 1
  | .object fields => depthFields fields + 1
  | _ => 0

/-- The depth of the deepest item. -/
def depthItems : List Json → Nat
  | [] => 0
  | v :: vs => max v.depth (depthItems vs)

/-- The depth of the deepest field. -/
def depthFields : List (String × Json) → Nat
  | [] => 0
  | (_, v) :: fs => max v.depth (depthFields fs)

end

/-! ## Scalars -/

/-- An integer from zero to below `bound`. -/
def nat? (bound : Nat) : Json → Option Nat
  | .int n => if 0 ≤ n ∧ n < bound then some n.toNat else none
  | _ => none

/-- A 32-bit word. -/
def uint32? (v : Json) : Option UInt32 :=
  (v.nat? UInt32.size).map UInt32.ofNat

/-- A 64-bit word. -/
def uint64? (v : Json) : Option UInt64 :=
  (v.nat? UInt64.size).map UInt64.ofNat

/-- A signed 64-bit integer. -/
def int64? : Json → Option Int64
  | .int n => if Int64.minValue.toInt ≤ n ∧ n ≤ Int64.maxValue.toInt then some (Int64.ofInt n) else none
  | _ => none

/-- A floating-point number; an integer is read as the nearest one. -/
def binary64? : Json → Option Binary64
  | .float x => some x
  | .int n => some (Binary64.ofInt n)
  | _ => none

/-- A boolean. -/
def bool? : Json → Option Bool
  | .bool b => some b
  | _ => none

/-- A string. -/
def string? : Json → Option String
  | .string s => some s
  | _ => none

/-- Whether a value gives nothing: `null` does and, in a value that is read as a whole, an object without fields. -/
def isNothing (whole : Bool) : Json → Bool
  | .null => true
  | .object [] => whole
  | _ => false

/-- The name of an alternative without parts: a string, or an object that gives nothing to one name. -/
def name? (whole : Bool) : Json → Option String
  | .string s => some s
  | .object [(name, v)] => if v.isNothing whole then some name else none
  | _ => none

/-- A word of a vocabulary, perhaps in a value that is read as a whole. -/
def wordWithin? {α : Type} [Vocabulary α] (whole : Bool) (v : Json) : Option α :=
  (v.name? whole).bind Vocabulary.ofWord?

/-- A word of a vocabulary. -/
def word? {α : Type} [Vocabulary α] (v : Json) : Option α := v.wordWithin? false

/-- `null`, or a value of a shape. -/
def nullable? {α : Type} (read : Json → Option α) : Json → Option (Option α)
  | .null => some none
  | v => (read v).map some

/-- A list of values of a shape. -/
def list? {α : Type} (read : Json → Option α) : Json → Option (List α)
  | .array items => items.mapM read
  | _ => none

/-- The fields of an object. -/
def fields? : Json → Option (List (String × Json))
  | .object fields => some fields
  | _ => none

/-! ## Fields -/

/-- The values given for a key, in order. -/
def valuesOf (key : String) (fields : List (String × Json)) : List Json :=
  (fields.filter fun f => f.1 == key).map (·.2)

/-- A field that is there once and has a shape. -/
def required {α : Type} (fields : List (String × Json)) (key : String) (read : Json → Option α) : Option α :=
  match valuesOf key fields with
  | [v] => read v
  | _ => none

/-- A field that takes a default if it is missing. -/
def defaulted {α : Type} (fields : List (String × Json)) (key : String) (default : α) (read : Json → Option α) : Option α :=
  match valuesOf key fields with
  | [] => some default
  | [v] => read v
  | _ => none

/-- A field that may be missing or `null`. -/
def optional {α : Type} (fields : List (String × Json)) (key : String) (read : Json → Option α) : Option (Option α) :=
  defaulted fields key none (nullable? read)

/-! ## Writing -/

/-- A word of a vocabulary. -/
def ofWord {α : Type} [Vocabulary α] (a : α) : Json :=
  .string (Vocabulary.word a)

/-- A written word is read back, in whatever value it stands. -/
@[simp] theorem wordWithin?_ofWord {α : Type} [Vocabulary α] (whole : Bool) (a : α) :
    (ofWord a).wordWithin? whole = some a := by
  simp [ofWord, wordWithin?, name?]

/-- A natural number. -/
def ofNat (n : Nat) : Json := .int n

/-- `null` for nothing. -/
def ofOption {α : Type} (write : α → Json) : Option α → Json
  | none => .null
  | some a => write a

/-- A list. -/
def ofList {α : Type} (write : α → Json) (as : List α) : Json :=
  .array (as.map write)

/-- A field that is left out if the list is empty. -/
def fieldUnlessEmpty {α : Type} (key : String) (write : α → Json) : List α → List (String × Json)
  | [] => []
  | as => [(key, ofList write as)]

end Json

end FlowLint
