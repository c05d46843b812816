import FlowLint.Format.Directive
import FlowLint.Target

/-!
# Arguments of directives

Whether the type of an argument is one that a directive can read, and how many bytes an integer directive reads. Records
and unknown types are taken to match everything, and a pointer to `void` or to an unknown type every text.
-/

namespace FlowLint.Format

/-- Records and types that the front end could not determine. -/
def isOpaque (c : CType) : Bool :=
  match c.referent with
  | .unknown | .record _ => true
  | _ => false

/-- Whether what a pointer points to can be read as text of an encoding. -/
def textMatches (t : Target) (e : Encoding) : CType → Bool
  | .char c => t.charSize c == t.encodingWidth e
  | .void | .unknown => true
  | _ => false

/-- Whether an argument of a type is of a kind. -/
def ArgumentKind.admits (t : Target) (kind : ArgumentKind) (c : CType) : Bool :=
  isOpaque c ||
    let c := c.referent
    match kind with
    | .signedInt | .unsignedInt | .char _ => c.isIntegral
    | .float => c.isFloating
    | .pointer => c.isPointerLike || (c.isIntegral && t.sizeOf? c == some t.pointerSize)
    | .string e => c == .nullptr || (c.pointee.map (textMatches t e)).getD false
    | .countPointer => (c.pointee.map fun p => p.isIntegral || p.isUnknown).getD false

/-- Whether an argument of a type can be a width or a precision. -/
def admitsStar (c : CType) : Bool :=
  c.referent.isIntegral || isOpaque c

/-- The number of bytes that an integer directive with a length modifier reads. -/
def impliedSize (t : Target) : Option Length → Nat
  | none | some .char | some .short | some .int32 | some .wide => 4
  | some .long => max t.model.longSize 4
  | some .longLong | some .quad | some .int64 | some .intmax | some .longDouble => 8
  | some .size | some .ptrdiff | some .pointer => max t.pointerSize 4

/-- The bytes that an integer directive reads and those that an integer argument has, if they differ. -/
def Directive.widthMismatch (t : Target) (d : Directive) (c : CType) : Option (Nat × Nat) :=
  if d.conversion.isInteger && c.isIntegral then do
    let actual ← t.promotedSize? c
    if actual = impliedSize t d.length then none else some (impliedSize t d.length, actual)
  else none

end FlowLint.Format
