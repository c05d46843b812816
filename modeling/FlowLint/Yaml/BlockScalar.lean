import FlowLint.Text.Digits
import FlowLint.Yaml.Cursor

/-!
# Block scalars

Lines that are indented further than the entry they belong to, behind a bar if they are taken as they are and behind an angle
if the breaks between them are folded. The header says how far they are indented, unless the first of them shows it, and
which of the breaks behind the last one are kept.
-/

namespace FlowLint.Yaml

/-- Which of the line breaks at the end of a block scalar are kept. -/
inductive Chomping where
  | strip
  | clip
  | keep
deriving DecidableEq, Repr, Inhabited

/-- What stands behind the indicator of a block scalar. -/
structure BlockHeader where
  chomping : Chomping
  increment : Option Nat
deriving DecidableEq, Repr, Inhabited

/-- How a sign says which breaks are kept. -/
def chomping? (c : Char) : Option Chomping :=
  match c with
  | '-' => some .strip
  | '+' => some .keep
  | _ => none

/-- The header of a block scalar, its parts in either order, and the place of the first line. -/
def blockHeader? (s : Cursor) : Option (BlockHeader × Cursor) := do
  let sign (s : Cursor) : Option Chomping × Cursor :=
    match s.rest.head?.bind chomping? with
    | some c => (some c, s.next)
    | none => (none, s)
  let digit (s : Cursor) : Option Nat × Cursor :=
    match s.rest.head?.bind (Text.digit? 10) with
    | some n => (some n, s.next)
    | none => (none, s)
  let (early, s) := sign s
  let (increment, s) := digit s
  let (late, s) := if early.isSome then (none, s) else sign s
  if increment = some 0 then none
  else
    let s ← s.lineEnd?
    some (⟨(early <|> late).getD .clip, increment⟩, s)

/-- The breaks of empty lines, from the last, the greatest indentation met, and the place of the first character behind them.
A tab must not take part in the indentation, which is as wide as possible if it is not known. -/
def emptyLines? (indent : Option Nat) (breaks : List Char) (widest : Nat) (p : Position) :
    List Char → Option (List Char × Nat × Cursor)
  | [] => some (breaks, max widest p.column, ⟨p, []⟩)
  | c :: cs =>
    let within := (indent.map fun n => decide (p.column < n)).getD true
    if c == ' ' && within then emptyLines? indent breaks widest (p.after c) cs
    else if c == '\t' && within then none
    else if isBreak c then emptyLines? indent (c :: breaks) (max widest p.column) (p.after c) cs
    else some (breaks, max widest p.column, ⟨p, c :: cs⟩)

/-- The line breaks between two lines of a block scalar. -/
structure LineGap where
  /-- The break of the line above, if there is one. -/
  first : List Char
  /-- The breaks of the empty lines in between. -/
  more : List Char
deriving DecidableEq, Repr, Inhabited

/-- What line breaks stand for, folded if the lines around them are not indented any further. -/
def LineGap.text (g : LineGap) (folds : Bool) : List Char :=
  if folds && g.first == ['\n'] then (if g.more.isEmpty then [' '] else g.more) else g.first ++ g.more

/-- The lines of a block scalar, less the breaks behind the last one, those breaks, and the place behind them. `gap` is what
stands in front of the first line, and `blank` tells whether the line above starts with a blank. There are at most `fuel`
lines. -/
def blockLines? (fuel : Nat) (literal : Bool) (indent : Nat) (blank : Bool) (gap : LineGap) (s : Cursor) :
    Option (List Char × LineGap × Cursor) :=
  match fuel with
  | 0 => none
  | fuel + 1 =>
    if s.column ≠ indent ∨ s.rest = [] then some ([], gap, s)
    else do
      let startsBlank := (s.rest.head?.map isBlank).getD false
      let (line, s) := s.span fun c => !isBreak c
      let first := s.rest.head?.toList
      let s := s.next
      let (more, _, s) ← emptyLines? (some indent) [] 0 s.position s.rest
      let (text, last, s) ← blockLines? fuel literal indent startsBlank ⟨first, more.reverse⟩ s
      some (gap.text (!literal && !blank && !startsBlank) ++ line ++ text, last, s)

/-- The text of a block scalar behind its indicator, and the place behind it. `level` is the least column of its lines. -/
def blockScalar? (literal : Bool) (level : Nat) (s : Cursor) : Option (List Char × Cursor) := do
  let (header, s) ← blockHeader? s
  let indent := header.increment.map (level - 1 + ·)
  let (breaks, widest, s) ← emptyLines? indent [] 0 s.position s.rest
  let indent := indent.getD (max (max widest level) 1)
  let (text, last, s) ← blockLines? (s.rest.length + 1) literal indent false ⟨[], breaks.reverse⟩ s
  match header.chomping with
  | .strip => some (text, s)
  | .clip => some (text ++ last.first, s)
  | .keep => some (text ++ last.first ++ last.more, s)

end FlowLint.Yaml
