import FlowLint.CType

/-!
# Targets

A target fixes the sizes of the types: the data model those of `long` and of pointers, and the width of `wchar_t` apart
from it. A preset names one of the usual targets.
-/

namespace FlowLint

/-- How wide `int`, `long` and pointers are. -/
inductive DataModel where
  | ilp32
  | lp64
  | llp64
deriving DecidableEq, Repr, Inhabited

/-- The sizes that checks on arguments need. -/
structure Target where
  model : DataModel
  wcharWidth : Nat
deriving DecidableEq, Repr, Inhabited

/-- The named targets. -/
inductive Preset where
  | linuxI686
  | linuxX64
  | windowsX86
  | windowsX64
deriving DecidableEq, Repr, Inhabited

instance : Vocabulary DataModel where
  members := [.ilp32, .lp64, .llp64]
  word
    | .ilp32 => "ilp32"
    | .lp64 => "lp64"
    | .llp64 => "llp64"
  find_word a := by cases a <;> rfl

instance : Vocabulary Preset where
  members := [.linuxI686, .linuxX64, .windowsX86, .windowsX64]
  word
    | .linuxI686 => "linux-i686"
    | .linuxX64 => "linux-x86_64"
    | .windowsX86 => "windows-x86"
    | .windowsX64 => "windows-x64"
  find_word a := by cases a <;> rfl

namespace DataModel

/-- The width of a pointer in bits. -/
def wordSize : DataModel → UInt32
  | .ilp32 => 32
  | .lp64 | .llp64 => 64

/-- The size of a pointer in bytes. -/
def pointerSize (m : DataModel) : Nat := m.wordSize.toNat / 8

/-- The size of `long` in bytes. -/
def longSize : DataModel → Nat
  | .ilp32 | .llp64 => 4
  | .lp64 => 8

/-- The data model taken for a word size. -/
def ofWordSize (bits : UInt32) : DataModel := if bits = 64 then .lp64 else .ilp32

/-- The data model as it is named in descriptions. -/
def title : DataModel → String
  | .ilp32 => "Ilp32"
  | .lp64 => "Lp64"
  | .llp64 => "Llp64"

end DataModel

namespace Target

/-- The size of a pointer in bytes. -/
def pointerSize (t : Target) : Nat := t.model.pointerSize

/-- The size of a character in bytes. -/
def charSize (t : Target) : CharType → Nat
  | .char | .signedChar | .unsignedChar => 1
  | .wchar => t.wcharWidth
  | .char16 => 2
  | .char32 => 4

/-- The size of an integer in bytes. -/
def intSize (t : Target) : IntType → Nat
  | .short | .unsignedShort => 2
  | .int | .unsignedInt => 4
  | .long | .unsignedLong => t.model.longSize
  | .longLong | .unsignedLongLong | .intmaxT | .uintmaxT => 8
  | .sizeT | .ssizeT | .ptrdiffT | .intptrT | .uintptrT => t.pointerSize

/-- The width of the characters of an encoding in bytes. -/
def encodingWidth (t : Target) (e : Encoding) : Nat := t.charSize e.charType

/-- The size of a type in bytes, through one reference, where it is known. -/
def sizeOf? (t : Target) : CType → Option Nat
  | .bool => some 1
  | .char c => some (t.charSize c)
  | .int i => some (t.intSize i)
  | .enum _ => some 4
  | .float .float => some 4
  | .float .double => some 8
  | .float .longDouble => some 16
  | .pointer _ | .nullptr => some t.pointerSize
  | .array element (some n) => (sizeOf? t element).map (· * n.toNat)
  | .reference r => if r.isReference then none else sizeOf? t r
  | _ => none

/-- The size of an argument after the promotions of a variadic call. -/
def promotedSize? (t : Target) (c : CType) : Option Nat := do
  let size ← t.sizeOf? c
  if c.isIntegral then some (max size 4)
  else if c.referent = .float .float then some 8
  else some size

end Target

namespace Preset

/-- The data model of a preset. -/
def model : Preset → DataModel
  | .linuxI686 | .windowsX86 => .ilp32
  | .linuxX64 => .lp64
  | .windowsX64 => .llp64

/-- The width of `wchar_t` in bytes. -/
def wcharWidth : Preset → UInt32
  | .linuxI686 | .linuxX64 => 4
  | .windowsX86 | .windowsX64 => 2

/-- Presets as they are listed. -/
instance : Ord Preset where
  compare := compareOn Preset.ctorIdx

instance : Std.TransOrd Preset :=
  inferInstanceAs (Std.TransCmp (compareOn Preset.ctorIdx))

instance : Std.LawfulEqOrd Preset where
  compare_self := Std.ReflOrd.compare_self
  eq_of_compare {a b} h := by
    have h : a.ctorIdx = b.ctorIdx := Std.LawfulEqOrd.eq_of_compare h
    cases a <;> cases b <;> first | rfl | cases h

/-- The names of the presets, in order. -/
def names : List String := (Vocabulary.members : List Preset).map Vocabulary.word

/-- The preset of a name or of one of its short forms, whatever the case of its letters. -/
def named? (name : String) : Option Preset :=
  match String.ofList (name.toList.map Char.toLower) with
  | "linux32" => some .linuxI686
  | "linux64" | "linux" => some .linuxX64
  | "win32" => some .windowsX86
  | "win64" | "windows" => some .windowsX64
  | name => Vocabulary.ofWord? name

end Preset

end FlowLint
