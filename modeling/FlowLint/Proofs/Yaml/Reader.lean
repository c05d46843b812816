import FlowLint.Proofs.Yaml.Scanner
import FlowLint.Yaml.Reader

/-!
# Reading what is written

A mapping of words is read back from its text (`read?_entriesText`): the scanner cuts the text into the tokens of the mapping,
the composer puts them together to nodes without anchors (`node?_tokens`), and those stand for the mapping itself
(`value?_node`).
-/

namespace FlowLint.Yaml

mutual

/-- The node of a value, without anchors. -/
def node : Yaml → Node
  | .scalar style tag text => .scalar style tag text
  | .mapping entries => .mapping (entryNodes entries)

/-- The nodes of entries. -/
def entryNodes : List (String × Yaml) → List (Node × Node)
  | [] => []
  | (key, v) :: entries => (.scalar .plain none key, v.node) :: entryNodes entries

end

mutual

/-- A node without anchors stands for its value, whatever marks there are. -/
theorem value?_node (known : Node.Known) : ∀ v : Yaml, v.node.value? known = some v
  | .scalar style tag text => by
    rw [node, Node.value?]
  | .mapping entries => by
    rw [node, Node.value?, entryValues?_entryNodes known entries]
    rfl

theorem entryValues?_entryNodes (known : Node.Known) :
    ∀ entries : List (String × Yaml), Node.entryValues? known (entryNodes entries) = some entries
  | [] => by
    rw [entryNodes, Node.entryValues?]
  | (key, v) :: entries => by
    rw [entryNodes, Node.entryValues?, Node.value?, value?_node known v, entryValues?_entryNodes known entries]
    rfl

end

/-! ## Composing -/

variable {handles : TagHandles}

theorem node?_scalar (fuel : Nat) (style : ScalarStyle) (text : String) (rest : List Token) :
    node? (fuel + 1) handles false (.scalar style text :: rest) = some (.scalar style none text, rest) := by
  simp [node?, properties]

theorem node?_blockStart (fuel : Nat) (rest : List Token) :
    node? (fuel + 1) handles false (.blockStart :: rest) =
      (blockEntries? fuel handles rest).map fun (entries, rest) => (.mapping entries, rest) := by
  cases h : blockEntries? fuel handles rest <;> simp [node?, properties, h]

/-- The tokens of a value start with one that is part of it. -/
theorem lacksValue_tokens (v : Yaml) (rest : List Token) : lacksValue false (v.tokens ++ rest) = false := by
  cases v with
  | scalar style tag text =>
    rw [tokens]
    rfl
  | mapping entries =>
    rw [tokens]
    rfl

/-- An entry whose value is put together to a node. -/
theorem entry?_eq {fuel : Nat} {key : String} {v : Yaml} {n : Node} {rest : List Token}
    (h : node? (fuel + 1) handles false (v.tokens ++ rest) = some (n, rest)) :
    entry? (fuel + 3) handles false (.scalar .plain key :: .value :: (v.tokens ++ rest)) =
      some ((.scalar .plain none key, n), rest) := by
  have hkey : entryPart? (fuel + 2) handles false (.scalar .plain key :: .value :: (v.tokens ++ rest)) =
      some (.scalar .plain none key, .value :: (v.tokens ++ rest)) := by
    rw [entryPart?, if_neg (by simp [lacksValue]), node?_scalar]
  have hvalue : entryPart? (fuel + 2) handles false (v.tokens ++ rest) = some (n, rest) := by
    rw [entryPart?, lacksValue_tokens, if_neg Bool.false_ne_true, h]
  unfold entry?
  rw [hkey]
  simp [hvalue]

mutual

/-- The tokens of a value are put together to its node. -/
theorem node?_tokens : ∀ {v : Yaml}, v.OfWords → ∀ fuel, 4 * v.tokens.length ≤ fuel →
    ∀ rest, node? fuel handles false (v.tokens ++ rest) = some (v.node, rest)
  | .scalar style tag text, h, fuel, hfuel, rest => by
    rw [OfWords] at h
    obtain ⟨rfl, rfl, -⟩ := h
    rw [tokens] at hfuel ⊢
    obtain ⟨fuel, rfl⟩ := Nat.exists_eq_add_of_le' (Nat.le_of_succ_le hfuel)
    rw [node]
    exact node?_scalar _ _ _ rest
  | .mapping entries, h, fuel, hfuel, rest => by
    rw [OfWords] at h
    rw [tokens] at hfuel ⊢
    rw [List.length_append, List.length_cons, List.length_singleton] at hfuel
    obtain ⟨fuel, rfl⟩ : ∃ f, fuel = f + 1 := ⟨fuel - 1, by omega⟩
    have hentries := blockEntries?_entryTokens h.2 fuel (by omega) rest
    rw [List.append_assoc, List.cons_append, node?_blockStart, node]
    simp [hentries]

theorem blockEntries?_entryTokens : ∀ {entries : List (String × Yaml)}, EntriesOfWords entries →
    ∀ fuel, 4 * (entryTokens entries).length ≤ fuel →
    ∀ rest, blockEntries? fuel handles (entryTokens entries ++ .blockEnd :: rest) = some (entryNodes entries, rest)
  | [], h, fuel, hfuel, rest => by
    rw [entryTokens, entryNodes, List.nil_append, blockEntries?]
  | (key, v) :: entries, h, fuel, hfuel, rest => by
    rw [EntriesOfWords] at h
    rw [entryTokens] at hfuel ⊢
    simp only [List.length_append, List.length_cons] at hfuel
    obtain ⟨fuel, rfl⟩ : ∃ f, fuel = f + 4 := ⟨fuel - 4, by omega⟩
    have hvalue := node?_tokens h.2.1 (fuel + 1) (by omega) (entryTokens entries ++ .blockEnd :: rest)
    have hentries := blockEntries?_entryTokens h.2.2 (fuel + 3) (by omega) rest
    simp only [List.cons_append, List.append_assoc]
    rw [blockEntries?, entry?_eq hvalue, entryNodes]
    simp [hentries]

end

/-- The tokens of a mapping are put together to it. -/
theorem compose?_tokens {entries : List (String × Yaml)} (h : (mapping entries).OfWords) :
    compose? (mapping entries).tokens = some (mapping entries) := by
  have hdocument : document? (mapping entries).tokens = some ((mapping entries).node, []) := by
    have hnode : node? (4 * (mapping entries).tokens.length + 4) .standard false ((mapping entries).tokens ++ []) = _ :=
      node?_tokens h _ (Nat.le_add_right _ _) []
    rw [List.append_nil] at hnode
    rw [tokens] at hnode ⊢
    exact hnode
  rw [compose?, hdocument]
  exact value?_node _ _

/-- A mapping of words is read back from its text. -/
theorem read?_entriesText {entries : List (String × Yaml)} (h : (mapping entries).OfWords) :
    read? (String.ofList (entriesText 0 entries)) = some (mapping entries) := by
  have htokens := tokens?_entriesText h
  have hchars : ∀ c ∈ entriesText 0 entries, IsWordText c := by
    rw [OfWords] at h
    exact isWordText_entriesText 0 h.2
  have hprintable : (entriesText 0 entries).all isPrintable = true :=
    List.all_eq_true.2 fun c hc => isPrintable_of_isWordText (hchars c hc)
  rw [read?, String.toList_ofList, hprintable, if_pos rfl, lineFeeds_of_isWordText hchars, htokens, Option.bind_some,
    compose?_tokens h]

end FlowLint.Yaml
