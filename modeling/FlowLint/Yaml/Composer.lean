import FlowLint.Yaml.Node
import FlowLint.Yaml.Token

/-!
# YAML values from tokens

A text holds one document. Tags are completed by the handles of the document; aliases are resolved when all of it is read.
-/

namespace FlowLint.Yaml

/-- The anchor and the tag in front of a value, in either order, and the tokens behind them. -/
def properties : List Token → Option Nat × Option TagName × List Token
  | .anchor mark :: .tag t :: rest => (some mark, some t, rest)
  | .tag t :: .anchor mark :: rest => (some mark, some t, rest)
  | .anchor mark :: rest => (some mark, none, rest)
  | .tag t :: rest => (none, some t, rest)
  | rest => (none, none, rest)

/-- Whether an entry lacks the value that would start with the next token. -/
def lacksValue (flow : Bool) (tokens : List Token) : Bool :=
  match tokens.head? with
  | some .value => true
  | some .key | some .blockEnd => !flow
  | some .comma | some .flowEnd => flow
  | _ => false

mutual

/-- The node that tokens start with, and the tokens behind it. Within braces there are no indented mappings. -/
def node? (fuel : Nat) (handles : TagHandles) (flow : Bool) (tokens : List Token) : Option (Node × List Token) :=
  match fuel, tokens with
  | 0, _ => none
  | _, .alias mark :: rest => some (.alias mark, rest)
  | fuel + 1, tokens => do
    let (anchor, name, rest) := properties tokens
    let tag ← name.mapM (·.resolve? handles)
    let (n, rest) ←
      match rest with
      | .scalar style text :: rest => some (.scalar style tag text, rest)
      | .flowStart :: rest => (flowEntries? fuel handles rest).map fun (entries, rest) => (.mapping entries, rest)
      | .blockStart :: rest =>
        if flow then none else (blockEntries? fuel handles rest).map fun (entries, rest) => (.mapping entries, rest)
      | rest => if anchor.isSome ∨ tag.isSome then some (.scalar .plain tag "", rest) else none
    some (anchor.elim n (Node.marked · n), rest)

/-- The key or the value of an entry, which may be left out. -/
def entryPart? (fuel : Nat) (handles : TagHandles) (flow : Bool) (tokens : List Token) : Option (Node × List Token) :=
  match fuel with
  | 0 => none
  | fuel + 1 => if lacksValue flow tokens then some (.blank, tokens) else node? fuel handles flow tokens

/-- The key and the value of an entry, from the key on. -/
def entry? (fuel : Nat) (handles : TagHandles) (flow : Bool) (tokens : List Token) : Option ((Node × Node) × List Token) :=
  match fuel with
  | 0 => none
  | fuel + 1 => do
    let (key, rest) ← entryPart? fuel handles flow tokens
    match rest with
    | .value :: rest => (entryPart? fuel handles flow rest).map fun (v, rest) => ((key, v), rest)
    | rest => some ((key, .blank), rest)

/-- The entries of an indented mapping, and the tokens behind its end. -/
def blockEntries? (fuel : Nat) (handles : TagHandles) (tokens : List Token) : Option (List (Node × Node) × List Token) :=
  match fuel, tokens with
  | _, .blockEnd :: rest => some ([], rest)
  | fuel + 1, .key :: rest => do
    let (e, rest) ← entry? fuel handles false rest
    let (entries, rest) ← blockEntries? fuel handles rest
    some (e :: entries, rest)
  | _, _ => none

/-- The entries between braces, and the tokens behind the closing one. A comma may follow the last entry, and an entry may be
a key alone. -/
def flowEntries? (fuel : Nat) (handles : TagHandles) (tokens : List Token) : Option (List (Node × Node) × List Token) :=
  match fuel, tokens with
  | _, .flowEnd :: rest => some ([], rest)
  | 0, _ => none
  | fuel + 1, tokens => do
    let (e, rest) ←
      match tokens with
      | .key :: rest => entry? fuel handles true rest
      | tokens => (node? fuel handles true tokens).map fun (key, rest) => ((key, .blank), rest)
    match rest with
    | .flowEnd :: rest => some ([e], rest)
    | .comma :: rest =>
      let (entries, rest) ← flowEntries? fuel handles rest
      some (e :: entries, rest)
    | _ => none

end

/-- The handles that directives introduce, and the tokens behind them. The version is given once at most. -/
def directives? (versioned : Bool) (handles : TagHandles) : List Token → Option (TagHandles × List Token)
  | .version major minor :: rest =>
    if versioned ∨ major ≠ 1 ∨ (minor ≠ 1 ∧ minor ≠ 2) then none else directives? true handles rest
  | .tagHandle handle front :: rest =>
    if (handles.lookup handle).isSome then none else directives? versioned ((handle, front) :: handles) rest
  | rest => some (handles ++ .standard, rest)

/-- The node of a document, which may be left out behind a mark, and the tokens behind it. -/
def document? (tokens : List Token) : Option (Node × List Token) := do
  let fuel := 4 * tokens.length + 4
  match tokens with
  | [] => some (.blank, [])
  | .version _ _ :: _ | .tagHandle _ _ :: _ | .documentStart :: _ =>
    match ← directives? false [] tokens with
    | (_, [.documentStart]) => some (.blank, [])
    | (_, .documentStart :: .documentEnd :: rest) => some (.blank, rest)
    | (handles, .documentStart :: rest) => node? fuel handles false rest
    | _ => none
  | tokens => node? fuel .standard false tokens

/-- The value of the only document that tokens make. -/
def compose? (tokens : List Token) : Option Yaml := do
  let (n, rest) ← document? tokens
  if rest.all (· == .documentEnd) then n.resolve? else none

end FlowLint.Yaml
