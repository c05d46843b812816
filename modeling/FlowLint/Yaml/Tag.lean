import FlowLint.Text.Digits
import FlowLint.Yaml

/-!
# Tags of YAML values

A tag is written as a handle and the rest of the name. A handle stands for the front of names. A percent sign and two
hexadecimal digits stand for a byte, and the bytes of a character that takes several stand one behind the other. A name
ends in front of a byte that is zero.
-/

namespace FlowLint.Yaml

/-- A tag as it is written. -/
structure TagName where
  handle : String
  suffix : List UInt8
deriving DecidableEq, Repr, Inhabited

/-- The fronts of names that handles stand for. -/
abbrev TagHandles := List (String × List UInt8)

/-- The bytes of a text of ASCII characters. -/
def asciiBytes (text : String) : List UInt8 := text.toList.map fun c => UInt8.ofNat c.toNat

/-- The handles that need no directive. -/
def TagHandles.standard : TagHandles := [("!", asciiBytes "!"), ("!!", asciiBytes (coreTag ""))]

/-- The number of bytes behind the first one of a character. -/
def bytesBehind? (first : Nat) : Option Nat :=
  if first < 0x80 then some 0
  else if 0xC0 ≤ first ∧ first < 0xE0 then some 1
  else if 0xE0 ≤ first ∧ first < 0xF0 then some 2
  else if 0xF0 ≤ first ∧ first < 0xF8 then some 3
  else none

/-- The bytes that a text of ASCII characters stands for, the first `missing` of which complete a character. -/
def octets? (missing : Nat) : List Char → Option (List UInt8)
  | [] => if missing = 0 then some [] else none
  | '%' :: high :: low :: cs => do
    let byte ← Text.number? 16 [high, low]
    let missing ←
      if missing = 0 then bytesBehind? byte
      else if 0x80 ≤ byte ∧ byte < 0xC0 then some (missing - 1)
      else none
    some (UInt8.ofNat byte :: (← octets? missing cs))
  | c :: cs => if c = '%' ∨ missing ≠ 0 then none else (octets? 0 cs).map (UInt8.ofNat c.toNat :: ·)

/-- The part of a name that a text stands for. -/
def tagBytes? (cs : List Char) : Option (List UInt8) := (octets? 0 cs).map (·.takeWhile (· ≠ 0))

/-- The name in full. What is no text counts as an empty name. -/
def TagName.resolve? (t : TagName) (handles : TagHandles) : Option String := do
  let front ← if t.handle = "" then some [] else handles.lookup t.handle
  some ((String.fromUTF8? (front ++ t.suffix).toByteArray).getD "")

end FlowLint.Yaml
