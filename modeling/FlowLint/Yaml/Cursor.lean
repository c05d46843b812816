/-!
# Places in a YAML text

A text is read from its front. A cursor holds what is left of it together with the line and the column of the next character.
-/

namespace FlowLint.Yaml

/-- Blanks within a line. -/
def isBlank (c : Char) : Bool := c == ' ' || c == '\t'

/-- Line breaks: the line feed and the two separators, which are never folded. -/
def isBreak (c : Char) : Bool := c == '\n' || c == '\u2028' || c == '\u2029'

/-- White space between the words of a scalar. -/
def isWhite (c : Char) : Bool := isBlank c || isBreak c

/-- Characters that a text may hold. -/
def isPrintable (c : Char) : Bool :=
  c == '\t' || c == '\n' || c == '\r' || (' ' ≤ c && c ≤ '~') || c == '\x85' ||
    ('\xa0' ≤ c && c != '\ufffe' && c != '\uffff')

/-- The mark that a text may start with. -/
def byteOrderMark : Char := '\ufeff'

/-- A text in which line feeds stand for carriage returns, for the two together and for next lines. -/
def lineFeeds : List Char → List Char
  | '\r' :: '\n' :: cs => '\n' :: lineFeeds cs
  | c :: cs => (if c == '\r' || c == '\x85' then '\n' else c) :: lineFeeds cs
  | [] => []

/-- Whether white space comes next, or nothing. -/
def atGap (cs : List Char) : Bool := (cs.head?.map isWhite).getD true

/-- Whether a line starts with a mark of three characters. -/
def startsMark (mark : Char) (cs : List Char) : Bool := cs.take 3 == [mark, mark, mark] && atGap (cs.drop 3)

/-- The line and the column of a character. -/
structure Position where
  line : Nat
  column : Nat
deriving DecidableEq, Repr, Inhabited

/-- The position behind a character. -/
def Position.after (p : Position) (c : Char) : Position :=
  if isBreak c then ⟨p.line + 1, 0⟩ else ⟨p.line, p.column + 1⟩

/-- A place in a text. -/
structure Cursor where
  position : Position
  rest : List Char
deriving Inhabited

namespace Cursor

/-- The front of a text. -/
def start (cs : List Char) : Cursor := ⟨⟨0, 0⟩, cs⟩

/-- The column of the next character. -/
def column (s : Cursor) : Nat := s.position.column

/-- The place behind the next character. -/
def next (s : Cursor) : Cursor :=
  match s.rest with
  | [] => s
  | c :: cs => ⟨s.position.after c, cs⟩

/-- The place behind some characters. -/
def skip (s : Cursor) : Nat → Cursor
  | 0 => s
  | n + 1 => s.next.skip n

/-- The characters in front that have a property, and the place behind them. -/
def span (s : Cursor) (p : Char → Bool) : List Char × Cursor :=
  let cs := s.rest.takeWhile p
  (cs, s.skip cs.length)

/-- The place behind blanks. -/
def skipBlanks (s : Cursor) : Cursor := (s.span isBlank).2

/-- The place behind the rest of a line, which holds nothing but a comment. -/
def lineEnd? (s : Cursor) : Option Cursor :=
  let s := s.skipBlanks
  let s := if s.rest.head? = some '#' then (s.span fun c => !isBreak c).2 else s
  if (s.rest.head?.map isBreak).getD true then some s.next else none

end Cursor

/-- The place of the first character that is neither blank nor part of a comment. In braces and where no key can start a tab
is as good as a blank. A line break outside braces allows for keys. -/
def skipGap (flow keys comment : Bool) (p : Position) : List Char → Bool × Cursor
  | [] => (keys, ⟨p, []⟩)
  | c :: cs =>
    if isBreak c then skipGap flow (keys || !flow) false (p.after c) cs
    else if comment || c == ' ' || (c == '\t' && (flow || !keys)) || (c == byteOrderMark && p.column == 0) then
      skipGap flow keys comment (p.after c) cs
    else if c == '#' then skipGap flow keys true (p.after c) cs
    else (keys, ⟨p, c :: cs⟩)

end FlowLint.Yaml
