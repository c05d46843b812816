import FlowLint.Format.Directive

/-!
# Slots

The arguments of a call with a format string are read from left to right: for each directive first the width and the precision
if they are stars, then the argument that is converted. A slot stands for one argument that is read, and a cursor goes from
argument to argument, whether there are so many or not.
-/

namespace FlowLint.Format

/-- What an argument is read for: the width or the precision of a directive, or its conversion. -/
inductive Slot where
  | width (d : Directive)
  | precision (d : Directive)
  | converted (d : Directive) (kind : ArgumentKind)
deriving DecidableEq, Repr, Inhabited

/-- The slots that were read so far, each with the index of its argument, and the index of the next argument. -/
structure Cursor where
  read : List (Nat × Slot)
  next : Nat
deriving DecidableEq, Repr, Inhabited

namespace Cursor

/-- The next argument is read. -/
def take (r : Cursor) (slot : Slot) : Cursor := ⟨r.read ++ [(r.next, slot)], r.next + 1⟩

/-- The next argument is read for a width or a precision that is a star. -/
def takeCount (r : Cursor) (count : Option Count) (slot : Slot) : Cursor :=
  if count = some .star then r.take slot else r

/-- The arguments of a directive are read, under a function with strings of encoding `e`. -/
def pass (e : Encoding) (r : Cursor) (d : Directive) : Cursor :=
  let counted := (r.takeCount d.width (.width d)).takeCount d.precision (.precision d)
  match d.expected e with
  | none => counted
  | some kind => counted.take (.converted d kind)

end Cursor

/-- The slots of a format string, each with the index of its argument, in the order in which they are read. -/
def FormatString.readings (f : FormatString) (e : Encoding) : List (Nat × Slot) :=
  (f.directives.foldl (Cursor.pass e) ⟨[], 0⟩).read

end FlowLint.Format
