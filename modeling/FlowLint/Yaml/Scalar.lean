import FlowLint.Text.Digits
import FlowLint.Yaml.Cursor

/-!
# Scalars that go on over lines

A plain or quoted scalar is a run of characters with white space in between. Blanks within a line are kept. White space that
holds line breaks is folded: what is left of it are the breaks, or a space if there is only one. The lines of a plain scalar
are indented further than the entry that it belongs to; those of a quoted one need not be.
-/

namespace FlowLint.Yaml

/-! ## White space -/

/-- White space in front of a character of a scalar, from the back. -/
inductive Gap where
  /-- Blanks within a line. -/
  | blanks (cs : List Char)
  /-- Line breaks, less the blanks around them. -/
  | breaks (cs : List Char)
  /-- The line breaks behind one that is escaped. -/
  | escaped (cs : List Char)
deriving DecidableEq, Repr, Inhabited

namespace Gap

/-- No white space. -/
def empty : Gap := .blanks []

/-- White space with one more character. -/
def push (g : Gap) (c : Char) : Gap :=
  match g, isBreak c with
  | .blanks _, true => .breaks [c]
  | .blanks cs, false => .blanks (c :: cs)
  | .breaks cs, true => .breaks (c :: cs)
  | .escaped cs, true => .escaped (c :: cs)
  | g, false => g

/-- Whether white space leads into another line. -/
def isBroken : Gap → Bool
  | .blanks _ => false
  | _ => true

/-- What white space within a scalar stands for. -/
def folded : Gap → List Char
  | .blanks cs => cs.reverse
  | .escaped cs => cs.reverse
  | .breaks cs =>
    match cs.reverse with
    | ['\n'] => [' ']
    | '\n' :: more => more
    | cs => cs

end Gap

/-! ## Quoted scalars -/

/-- What a character of a quoted scalar starts. -/
inductive QuotedPart where
  /-- The end of the scalar. -/
  | close
  /-- A character, to which some of the following ones belong. -/
  | char (c : Char) (more : Nat)
  /-- A line break that is left out, with the white space behind it. -/
  | lineEnd
deriving DecidableEq, Repr, Inhabited

/-- Single quotes: a quote within the scalar is written twice. -/
def singleQuoted? (c : Char) (cs : List Char) : Option QuotedPart :=
  if c = '\x27' then
    if cs.head? = some '\x27' then some (.char c 1) else some .close
  else some (.char c 0)

/-- The character that an escape of one letter stands for. -/
def unescape? (c : Char) : Option Char :=
  match c with
  | '0' => some '\x00'
  | 'a' => some '\x07'
  | 'b' => some '\x08'
  | 't' => some '\t'
  | '\t' => some '\t'
  | 'n' => some '\n'
  | 'v' => some '\x0b'
  | 'f' => some '\x0c'
  | 'r' => some '\r'
  | 'e' => some '\x1b'
  | ' ' => some ' '
  | '"' => some '"'
  | '/' => some '/'
  | '\\' => some '\\'
  | 'N' => some '\x85'
  | '_' => some '\xa0'
  | 'L' => some '\u2028'
  | 'P' => some '\u2029'
  | _ => none

/-- How many hexadecimal digits follow the letter of an escape. -/
def escapeWidth? (c : Char) : Option Nat :=
  match c with
  | 'x' => some 2
  | 'u' => some 4
  | 'U' => some 8
  | _ => none

/-- The character that hexadecimal digits stand for. -/
def charOf? (width : Nat) (digits : List Char) : Option Char :=
  if digits.length = width then
    ((Text.number? 16 digits).filter fun n => (Char.ofNat n).toNat == n).map Char.ofNat
  else none

/-- Double quotes: a backslash starts an escape. -/
def doubleQuoted? (c : Char) (cs : List Char) : Option QuotedPart :=
  if c = '"' then some .close
  else if c = '\\' then
    match cs with
    | [] => none
    | letter :: digits =>
      if isBreak letter then some .lineEnd
      else
        match escapeWidth? letter with
        | some width => (charOf? width (digits.take width)).map (.char · (width + 1))
        | none => (unescape? letter).map (.char · 1)
  else some (.char c 0)

/-- The text of a quoted scalar behind its opening quote, and the place behind the closing one. `more` characters belong to
what is read already, and `gap` is the white space behind that. A mark of a document ends no scalar: it is refused. -/
def quoted? (part? : Char → List Char → Option QuotedPart) (more : Nat) (gap : Gap) (p : Position) :
    List Char → Option (List Char × Cursor)
  | [] => none
  | c :: cs =>
    match more with
    | more + 1 => quoted? part? more gap (p.after c) cs
    | 0 =>
      if isWhite c then quoted? part? 0 (gap.push c) (p.after c) cs
      else if p.column = 0 ∧ (startsMark '-' (c :: cs) ∨ startsMark '.' (c :: cs)) then none
      else
        match part? c cs with
        | none => none
        | some .close => some (gap.folded, ⟨p.after c, cs⟩)
        | some (.char d more) => do
          let (text, s) ← quoted? part? more .empty (p.after c) cs
          some (gap.folded ++ d :: text, s)
        | some .lineEnd => do
          let (text, s) ← quoted? part? 1 (.escaped []) (p.after c) cs
          some (gap.folded ++ text, s)

/-! ## Plain scalars -/

/-- Characters that braces and brackets give a meaning. -/
def isFlowMark (c : Char) : Bool := ['[', ']', '\x7b', '\x7d', ','].contains c

/-- Characters that have a meaning at the start of a value, or are set aside for one. -/
def isIndicator (c : Char) : Bool := ['#', '&', '*', '!', '|', '>', '\x27', '"', '%', '@', '\x60'].contains c

/-- Whether a plain scalar can start like this. -/
def startsPlain (flow : Bool) : List Char → Bool
  | [] => false
  | c :: cs =>
    if c = '-' then !(cs.head?.map isBlank).getD false
    else if c = '?' ∨ c = ':' then !flow && !atGap cs
    else !isWhite c && !isFlowMark c && !isIndicator c

/-- Whether a plain scalar ends in front of a character, given the white space before it. -/
def endsPlain (flow : Bool) (indent : Nat) (gap : Gap) (p : Position) (c : Char) (cs : List Char) : Bool :=
  (gap.isBroken && !flow && p.column < indent) ||
  (p.column == 0 && (startsMark '-' (c :: cs) || startsMark '.' (c :: cs))) ||
  (c == '#' && gap != .empty) ||
  (c == ':' && atGap cs) ||
  (flow && isFlowMark c)

/-- The text of a plain scalar whose lines are indented by `indent` blanks at least, whether white space that leads into
another line follows it, and the place behind that. `gap` is the white space behind what is read already. -/
def plain? (flow : Bool) (indent : Nat) (gap : Gap) (p : Position) : List Char → Option (List Char × Bool × Cursor)
  | [] => some ([], gap.isBroken, ⟨p, []⟩)
  | c :: cs =>
    if isWhite c then
      if c = '\t' ∧ gap.isBroken ∧ p.column < indent then none
      else plain? flow indent (gap.push c) (p.after c) cs
    else if endsPlain flow indent gap p c cs then some ([], gap.isBroken, ⟨p, c :: cs⟩)
    else if flow ∧ c = ':' ∧ (cs.head?.map fun d => isFlowMark d || d == '?').getD false then none
    else do
      let (text, broken, s) ← plain? flow indent .empty (p.after c) cs
      some (gap.folded ++ c :: text, broken, s)

end FlowLint.Yaml
