import FlowLint.Yaml.BlockScalar
import FlowLint.Yaml.Scalar
import FlowLint.Yaml.Token

/-!
# The tokens of a YAML text

A token may turn out to start a key only when the colon behind the key is read. Until then it is a candidate; the tokens that
say so are put in front of it afterwards. A key ends in the line it starts in, and within `keyReach` characters. What is
indented further than the mapping around it opens another one. No setting is a sequence, so sequences are refused.
-/

namespace FlowLint.Yaml

/-- How far the colon behind a key may be from the start of the key. -/
def keyReach : Nat := 1024

/-- A token that may turn out to start a key. -/
structure Candidate where
  /-- The number of tokens in front of it. -/
  place : Nat
  position : Position
  /-- Whether nothing but a key can stand there. -/
  required : Bool
deriving DecidableEq, Repr, Inhabited

/-- Whether a key that starts with a candidate can end at a position. -/
def Candidate.reaches (c : Candidate) (p : Position) : Bool :=
  c.position.line == p.line && p.column ≤ c.position.column + keyReach

/-- How far a text is read. -/
structure Scanner where
  cursor : Cursor
  /-- The tokens in front of the cursor, from the last. -/
  tokens : List Token
  /-- The columns of the mappings that indentation has opened, from the innermost. -/
  indents : List Nat
  candidate : Option Candidate
  /-- The candidates around the braces that are open, from the innermost. -/
  outer : List (Option Candidate)
  /-- Whether the next token may start a key. -/
  keys : Bool
  /-- The names of the anchors so far, each with the number of its last one. -/
  anchors : List (String × Nat)
deriving Inhabited

namespace Scanner

/-- The front of a text. -/
def start (cs : List Char) : Scanner := ⟨.start cs, [], [], none, [], true, []⟩

/-- Whether braces are open. -/
def inFlow (s : Scanner) : Bool := !s.outer.isEmpty

/-- The least column of what belongs to the innermost mapping. -/
def level (s : Scanner) : Nat := (s.indents.head?.map (· + 1)).getD 0

/-- One more token. -/
def emit (s : Scanner) (token : Token) : Scanner := { s with tokens := token :: s.tokens }

/-- Puts a token behind the first `place` ones. -/
def insert (s : Scanner) (place : Nat) (token : Token) : Scanner :=
  let (behind, before) := s.tokens.splitAt (s.tokens.length - place)
  { s with tokens := behind ++ token :: before }

/-- Passes characters. -/
def skip (s : Scanner) (n : Nat) : Scanner := { s with cursor := s.cursor.skip n }

/-- Sets whether the next token may start a key. -/
def allowKeys (s : Scanner) (keys : Bool) : Scanner := { s with keys }

/-! ## Indentation -/

/-- Closes the mappings whose column is `column` or further right. Within braces indentation does not count. -/
def closeFrom (s : Scanner) (column : Nat) : Scanner :=
  if s.inFlow then s
  else
    let closed := s.indents.takeWhile (column ≤ ·)
    { s with tokens := List.replicate closed.length .blockEnd ++ s.tokens, indents := s.indents.drop closed.length }

/-- Opens a mapping behind the first `place` tokens, unless the innermost one is in the same column. -/
def openAt (s : Scanner) (column place : Nat) : Scanner :=
  if s.inFlow || column < s.level then s
  else { s.insert place .blockStart with indents := column :: s.indents }

/-! ## Keys -/

/-- Gives up the candidate. -/
def dropCandidate? (s : Scanner) : Option Scanner :=
  if (s.candidate.map Candidate.required).getD false then none else some { s with candidate := none }

/-- Makes the next token the candidate, if it may start a key. -/
def saveCandidate? (s : Scanner) : Option Scanner :=
  if s.keys then do
    let required := !s.inFlow && s.indents.head? == some s.cursor.column
    let s ← s.dropCandidate?
    some { s with candidate := some ⟨s.tokens.length, s.cursor.position, required⟩ }
  else some s

/-- A question mark, which starts a key of any shape. -/
def key? (s : Scanner) : Option Scanner :=
  if !s.inFlow && !s.keys then none
  else do
    let s ← (s.openAt s.cursor.column s.tokens.length).dropCandidate?
    some ((s.emit .key).skip 1 |>.allowKeys (!s.inFlow))

/-- A colon, which ends the key that the candidate starts or follows a key of any shape. -/
def value? (s : Scanner) : Option Scanner :=
  match s.candidate.filter (·.reaches s.cursor.position) with
  | some c =>
    let s := (s.insert c.place .key).openAt c.position.column c.place
    some ((({ s with candidate := none }).emit .value).skip 1 |>.allowKeys false)
  | none =>
    if !s.inFlow && !s.keys then none
    else do
      let s ← s.dropCandidate?
      some (((s.openAt s.cursor.column s.tokens.length).emit .value).skip 1 |>.allowKeys (!s.inFlow))

/-! ## Marks and braces -/

/-- A mark of a document. -/
def documentMark? (s : Scanner) (token : Token) : Option Scanner := do
  let s ← (s.closeFrom 0).dropCandidate?
  some ((s.emit token).skip 3 |>.allowKeys false)

/-- An opening brace. -/
def openFlow? (s : Scanner) : Option Scanner := do
  let s ← s.saveCandidate?
  some ((({ s with candidate := none, outer := s.candidate :: s.outer }).emit .flowStart).skip 1 |>.allowKeys true)

/-- A closing brace. -/
def closeFlow? (s : Scanner) : Option Scanner := do
  let s ← s.dropCandidate?
  some ((({ s with candidate := s.outer.head?.join, outer := s.outer.tail }).emit .flowEnd).skip 1 |>.allowKeys false)

/-- A comma. -/
def comma? (s : Scanner) : Option Scanner := do
  let s ← s.dropCandidate?
  some ((s.emit .comma).skip 1 |>.allowKeys true)

/-! ## Names and tags -/

/-- The characters of names. -/
def isNameChar (c : Char) : Bool := c.isAlphanum || c == '-' || c == '_'

/-- The characters of tags, and of tags between angles. -/
def isTagChar (angles : Bool) (c : Char) : Bool :=
  isNameChar c || [';', '/', '?', ':', '@', '&', '=', '+', '$', '.', '%', '!', '~', '*', '\x27', '(', ')'].contains c ||
    (angles && [',', '[', ']'].contains c)

/-- The name of an anchor or an alias, behind its first character. -/
def name? (s : Cursor) : Option (String × Cursor) :=
  let (name, s) := s.next.span isNameChar
  let ends := (s.rest.head?.map fun c => isWhite c || ['?', ':', ',', ']', '\x7d', '%', '@', '\x60'].contains c).getD true
  if name.isEmpty || !ends then none else some (String.ofList name, s)

/-- An anchor. Its number is how many names the anchors in front of it have, so the number of a name that comes again is
given to the next new name as well. -/
def anchor? (s : Scanner) : Option Scanner := do
  let s ← s.saveCandidate?
  let (name, cursor) ← name? s.cursor
  let mark := s.anchors.length
  let anchors := (name, mark) :: s.anchors.filter (·.1 ≠ name)
  some ({ s with cursor, anchors }.emit (.anchor mark) |>.allowKeys false)

/-- An alias, whose name an anchor in front of it has. -/
def alias? (s : Scanner) : Option Scanner := do
  let s ← s.saveCandidate?
  let (name, cursor) ← name? s.cursor
  some ({ s with cursor }.emit (.alias (← s.anchors.lookup name)) |>.allowKeys false)

/-- The handle that a text starts with, a name between exclamation marks, and the place behind it. -/
def tagHandle? (s : Cursor) : Option (String × Cursor) :=
  match s.rest with
  | '!' :: _ =>
    let (name, behind) := s.next.span isNameChar
    if behind.rest.head? = some '!' then some (String.ofList ('!' :: name ++ ['!']), behind.next) else none
  | _ => none

/-- A tag, from its exclamation mark on. -/
def tagName? (s : Cursor) : Option (TagName × Cursor) :=
  if s.next.rest.head? = some '<' then do
    let (text, behind) := (s.skip 2).span (isTagChar true)
    if text.isEmpty ∨ behind.rest.head? ≠ some '>' then none else some (⟨"", ← tagBytes? text⟩, behind.next)
  else
    match tagHandle? s with
    | some (handle, behind) => do
      let (text, behind) := behind.span (isTagChar false)
      if text.isEmpty then none else some (⟨handle, ← tagBytes? text⟩, behind)
    | none => do
      let (text, behind) := s.next.span (isTagChar false)
      let suffix ← tagBytes? text
      some (if suffix.isEmpty then ⟨"", asciiBytes "!"⟩ else ⟨"!", suffix⟩, behind)

/-- A tag. -/
def tag? (s : Scanner) : Option Scanner := do
  let s ← s.saveCandidate?
  let (tag, cursor) ← tagName? s.cursor
  if atGap cursor.rest || (s.inFlow && cursor.rest.head? == some ',') then
    some ({ s with cursor }.emit (.tag tag) |>.allowKeys false)
  else none

/-! ## Directives -/

/-- A number of at most nine digits. -/
def versionPart? (s : Cursor) : Option (Nat × Cursor) := do
  let (digits, s) := s.span Char.isDigit
  if digits.length ≤ 9 then some (← Text.number? 10 digits, s) else none

/-- The version of YAML that a text is written in. -/
def version? (s : Cursor) : Option (Token × Cursor) := do
  let (major, s) ← versionPart? s.skipBlanks
  if s.rest.head? = some '.' then
    let (minor, s) ← versionPart? s.next
    some (.version major minor, s)
  else none

/-- A handle and the front of the tags that it stands for. -/
def handleMeaning? (s : Cursor) : Option (Token × Cursor) := do
  let s := s.skipBlanks
  let (handle, s) ← tagHandle? s <|> if s.rest.head? = some '!' then some ("!", s.next) else none
  if (s.rest.head?.map isBlank).getD false then
    let (front, s) := s.skipBlanks.span (isTagChar true)
    if front.isEmpty ∨ !atGap s.rest then none else some (.tagHandle handle (← tagBytes? front), s)
  else none

/-- A directive: a line that starts with a percent sign. -/
def directive? (s : Scanner) : Option Scanner := do
  let s ← (s.closeFrom 0).dropCandidate?
  let (name, cursor) := s.cursor.next.span isNameChar
  let (token, cursor) ←
    if !atGap cursor.rest then none
    else
      match String.ofList name with
      | "YAML" => version? cursor
      | "TAG" => handleMeaning? cursor
      | _ => none
  some ({ s with cursor := ← cursor.lineEnd? }.emit token |>.allowKeys false)

/-! ## Scalars -/

/-- A quoted scalar. -/
def quotedScalar? (s : Scanner) (part? : Char → List Char → Option QuotedPart) : Option Scanner := do
  let s ← s.saveCandidate?
  let (text, cursor) ← quoted? part? 0 .empty s.cursor.next.position s.cursor.next.rest
  some ({ s with cursor }.emit (.scalar .quoted (String.ofList text)) |>.allowKeys false)

/-- A plain scalar. -/
def plainScalar? (s : Scanner) : Option Scanner := do
  let s ← s.saveCandidate?
  let (text, broken, cursor) ← plain? s.inFlow s.level .empty s.cursor.position s.cursor.rest
  some ({ s with cursor }.emit (.scalar .plain (String.ofList text)) |>.allowKeys broken)

/-- A block scalar. -/
def blockText? (s : Scanner) (style : ScalarStyle) : Option Scanner := do
  let s ← s.dropCandidate?
  let (text, cursor) ← blockScalar? (style == .literal) s.level s.cursor.next
  some ({ s with cursor }.emit (.scalar style (String.ofList text)) |>.allowKeys true)

/-! ## Texts -/

/-- Reads the token that starts with the next character. -/
def token? (s : Scanner) : Option Scanner :=
  match s.cursor.rest with
  | [] => none
  | c :: cs =>
    if s.cursor.column = 0 ∧ c = '%' then s.directive?
    else if s.cursor.column = 0 ∧ startsMark '-' (c :: cs) then s.documentMark? .documentStart
    else if s.cursor.column = 0 ∧ startsMark '.' (c :: cs) then s.documentMark? .documentEnd
    else
      match c with
      | '\x7b' => s.openFlow?
      | '\x7d' => s.closeFlow?
      | ',' => s.comma?
      | '&' => s.anchor?
      | '*' => s.alias?
      | '!' => s.tag?
      | '\x27' => s.quotedScalar? singleQuoted?
      | '"' => s.quotedScalar? doubleQuoted?
      | _ =>
        if c = '?' ∧ (s.inFlow ∨ atGap cs) then s.key?
        else if c = ':' ∧ (s.inFlow ∨ atGap cs) then s.value?
        else if c = '-' ∧ atGap cs then none
        else if c = '|' ∧ !s.inFlow then s.blockText? .literal
        else if c = '>' ∧ !s.inFlow then s.blockText? .folded
        else if startsPlain s.inFlow (c :: cs) then s.plainScalar?
        else none

/-- Passes white space and comments, and closes the mappings that end there. -/
def advance (s : Scanner) : Scanner :=
  let (keys, cursor) := skipGap s.inFlow s.keys false s.cursor.position s.cursor.rest
  { s with keys, cursor }.closeFrom (cursor.column + 1)

/-- The tokens of the rest of a text, which are at most `fuel`. -/
def tokens? (fuel : Nat) (s : Scanner) : Option (List Token) :=
  match fuel with
  | 0 => none
  | fuel + 1 =>
    let s := s.advance
    if s.cursor.rest.isEmpty then (s.closeFrom 0).dropCandidate?.map fun s => s.tokens.reverse
    else s.token?.bind (tokens? fuel)

end Scanner

/-- The tokens of a text. -/
def tokens? (cs : List Char) : Option (List Token) := Scanner.tokens? (cs.length + 1) (.start cs)

end FlowLint.Yaml
