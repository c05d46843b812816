import FlowLint.Yaml

/-!
# Values that share parts

The tree of a document in which anchors mark nodes and aliases stand for them. Of several nodes with one mark the last
counts, wherever the alias is. The values of the marks are found in rounds: each round may use those of the round before,
so an alias that leads back to itself never gets a value.
-/

namespace FlowLint.Yaml

/-- A value as it is written. -/
inductive Node where
  | scalar (style : ScalarStyle) (tag : Option String) (text : String)
  | mapping (entries : List (Node × Node))
  | marked (mark : Nat) (node : Node)
  | alias (mark : Nat)
deriving Repr, Inhabited

namespace Node

/-- The node of what is not written. -/
def blank : Node := .scalar .plain none ""

/-- The values of marks, as far as they are known. -/
abbrev Known := List (Nat × Option Yaml)

mutual

/-- The marked nodes in a node, in written order. -/
def marks : Node → List (Nat × Node)
  | .scalar _ _ _ | .alias _ => []
  | .mapping entries => entryMarks entries
  | .marked mark node => (mark, node) :: node.marks

/-- The marked nodes in entries, in written order. -/
def entryMarks : List (Node × Node) → List (Nat × Node)
  | [] => []
  | (key, v) :: entries => key.marks ++ v.marks ++ entryMarks entries

end

mutual

/-- The value of a node. -/
def value? (known : Known) : Node → Option Yaml
  | .scalar style tag text => some (.scalar style tag text)
  | .mapping entries => (entryValues? known entries).map .mapping
  | .marked _ node => node.value? known
  | .alias mark => (known.lookup mark).join

/-- The keys, which are scalars, and the values of entries. -/
def entryValues? (known : Known) : List (Node × Node) → Option (List (String × Yaml))
  | [] => some []
  | (key, v) :: entries => do
    let text ← (← key.value? known).string?
    some ((text, ← v.value? known) :: (← entryValues? known entries))

end

/-- One more round of values. -/
def round (marked : List (Nat × Node)) (known : Known) : Known := marked.map fun (mark, node) => (mark, node.value? known)

/-- The value of the node of a document. An alias leads through each mark once at most. -/
def resolve? (n : Node) : Option Yaml :=
  let marked := n.marks.reverse
  n.value? (Nat.repeat (round marked) marked.length [])

end Node

end FlowLint.Yaml
