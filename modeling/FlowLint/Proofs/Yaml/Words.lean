import FlowLint.Proofs.Yaml.Value
import FlowLint.Yaml.Scanner

/-!
# Values of words

Settings are written as plain scalars and mappings of them. A word is a text in which no character has a meaning of its own
(`IsWord`); `OfWords` says of a value that its keys and scalars are words and that no mapping in it is empty.
`Yaml.tokens` are the tokens that the text of such a value is cut into.

Nothing happens to the text before that: its characters may be held by a text (`isPrintable_of_isWordText`), and no line break
of it is replaced (`lineFeeds_of_isWordText`).
-/

namespace FlowLint.Yaml

/-! ## Words -/

/-- A word: letters, digits, hyphens and underscores, of which a hyphen is not the first. -/
structure IsWord (cs : List Char) : Prop where
  chars : ∀ c ∈ cs, Scanner.isNameChar c = true
  head : ∃ c ∈ cs.head?, c ≠ '-'

instance (cs : List Char) : Decidable (IsWord cs) :=
  decidable_of_iff (cs.all Scanner.isNameChar = true ∧ cs.head?.any (· != '-') = true)
    ⟨fun h => ⟨List.all_eq_true.1 h.1, by simpa [Option.any_eq_true] using h.2⟩,
      fun h => ⟨List.all_eq_true.2 h.chars, by simpa [Option.any_eq_true] using h.head⟩⟩

/-- Characters of words are none of those with a meaning. -/
theorem ne_of_isNameChar {c d : Char} (h : Scanner.isNameChar c = true) (hd : Scanner.isNameChar d = false) : c ≠ d := by
  rintro rfl
  rw [h] at hd
  cases hd

theorem isWhite_of_isNameChar {c : Char} (h : Scanner.isNameChar c = true) : isWhite c = false := by
  have hs := ne_of_isNameChar h (d := ' ') (by decide)
  have ht := ne_of_isNameChar h (d := '\t') (by decide)
  have hn := ne_of_isNameChar h (d := '\n') (by decide)
  have hl := ne_of_isNameChar h (d := '\u2028') (by decide)
  have hp := ne_of_isNameChar h (d := '\u2029') (by decide)
  simp [isWhite, isBlank, isBreak, hs, ht, hn, hl, hp]

theorem isBreak_of_isNameChar {c : Char} (h : Scanner.isNameChar c = true) : isBreak c = false := by
  have hwhite := isWhite_of_isNameChar h
  rw [isWhite, Bool.or_eq_false_iff] at hwhite
  exact hwhite.2

/-- The first character of a word and the ones behind it. -/
theorem IsWord.exists_cons {cs : List Char} (h : IsWord cs) :
    ∃ c cs', cs = c :: cs' ∧ Scanner.isNameChar c = true ∧ c ≠ '-' := by
  obtain ⟨c, hc, hdash⟩ := h.head
  cases cs with
  | nil => cases hc
  | cons d cs' =>
    obtain rfl := Option.some.inj hc
    exact ⟨d, cs', rfl, h.chars d List.mem_cons_self, hdash⟩

/-! ## Values of words -/

mutual

/-- Whether a value is made of words, those that are keys within the reach of a key. -/
def OfWords : Yaml → Prop
  | .scalar style tag text => style = .plain ∧ tag = none ∧ IsWord text.toList
  | .mapping entries => entries ≠ [] ∧ EntriesOfWords entries

/-- Whether entries are made of words. -/
def EntriesOfWords : List (String × Yaml) → Prop
  | [] => True
  | (key, v) :: entries => (IsWord key.toList ∧ key.toList.length ≤ keyReach) ∧ v.OfWords ∧ EntriesOfWords entries

end

mutual

/-- The tokens of a value. -/
def tokens : Yaml → List Token
  | .scalar style _ text => [.scalar style text]
  | .mapping entries => .blockStart :: entryTokens entries ++ [.blockEnd]

/-- The tokens of entries. -/
def entryTokens : List (String × Yaml) → List Token
  | [] => []
  | (key, v) :: entries => .key :: .scalar .plain key :: .value :: v.tokens ++ entryTokens entries

end

theorem ofWords_plain {text : String} : (plain text).OfWords ↔ IsWord text.toList := by
  rw [plain, OfWords]
  simp

/-- Digits are a word. -/
theorem ofWords_ofNat (n : Nat) : (ofNat n).OfWords := by
  rw [ofNat, ofWords_plain, toList_toString]
  refine ⟨fun c hc => ?_, ?_⟩
  · simp [Scanner.isNameChar, Char.isAlphanum, Text.isDigit_of_mem_toDigits hc]
  · cases h : Nat.toDigits 10 n with
    | nil => exact absurd h Nat.toDigits_ne_nil
    | cons c cs =>
      refine ⟨c, rfl, ?_⟩
      rintro rfl
      have hdigit : '-'.isDigit = true := Text.isDigit_of_mem_toDigits (h ▸ List.mem_cons_self)
      exact absurd hdigit (by decide)

theorem ofWords_ofBool (b : Bool) : (ofBool b).OfWords := by
  rw [ofBool, ofWords_plain]
  cases b <;> decide

theorem entriesOfWords_entryIfAny {α : Type} {key : String} (hkey : IsWord key.toList ∧ key.toList.length ≤ keyReach)
    {write : α → Yaml} {value : Option α} (hwrite : ∀ a ∈ value, (write a).OfWords) {rest : List (String × Yaml)}
    (hrest : EntriesOfWords rest) : EntriesOfWords (entryIfAny key write value ++ rest) := by
  cases value with
  | none => exact hrest
  | some a =>
    change EntriesOfWords ((key, write a) :: rest)
    rw [EntriesOfWords]
    exact ⟨hkey, hwrite a rfl, hrest⟩

/-! ## The characters of their text -/

/-- Characters of the text of words. -/
def IsWordText (c : Char) : Prop := Scanner.isNameChar c = true ∨ c ∈ [' ', ':', '\n']

theorem IsWord.isWordText {cs : List Char} (h : IsWord cs) : ∀ c ∈ cs, IsWordText c :=
  fun c hc => .inl (h.chars c hc)

mutual

theorem isWordText_valueText (indent : Nat) : ∀ {v : Yaml}, v.OfWords → ∀ c ∈ v.valueText indent, IsWordText c
  | .scalar _ _ text, h, c, hc => by
    rw [OfWords] at h
    rw [valueText] at hc
    simp only [List.cons_append, List.mem_cons, List.mem_append, List.not_mem_nil, or_false] at hc
    rcases hc with rfl | hc | rfl
    · exact .inr (by decide)
    · exact h.2.2.isWordText c hc
    · exact .inr (by decide)
  | .mapping entries, h, c, hc => by
    rw [OfWords] at h
    rw [valueText, List.mem_cons] at hc
    rcases hc with rfl | hc
    · exact .inr (by decide)
    · exact isWordText_entriesText indent h.2 c hc

theorem isWordText_entriesText (indent : Nat) :
    ∀ {entries : List (String × Yaml)}, EntriesOfWords entries → ∀ c ∈ entriesText indent entries, IsWordText c
  | [], _, c, hc => by
    rw [entriesText] at hc
    cases hc
  | (key, v) :: entries, h, c, hc => by
    rw [EntriesOfWords] at h
    rw [entriesText] at hc
    simp only [List.append_assoc, List.cons_append, List.mem_append, List.mem_cons] at hc
    rcases hc with hc | hc | rfl | hc | hc
    · exact .inr (by simp [List.eq_of_mem_replicate hc])
    · exact h.1.1.isWordText c hc
    · exact .inr (by decide)
    · exact isWordText_valueText (indent + 2) h.2.1 c hc
    · exact isWordText_entriesText indent h.2.2 c hc

end

/-- The text of words has no line breaks but line feeds. -/
theorem lineFeeds_of_isWordText {cs : List Char} (h : ∀ c ∈ cs, IsWordText c) : lineFeeds cs = cs := by
  induction cs with
  | nil => rfl
  | cons c cs ih =>
    rw [List.forall_mem_cons] at h
    have hreturn : ∀ d, Scanner.isNameChar d = false → d ∉ [' ', ':', '\n'] → c ≠ d := by
      rintro d hname hother rfl
      rcases h.1 with hc | hc
      · rw [hname] at hc
        cases hc
      · exact hother hc
    have hr := hreturn '\r' (by decide) (by decide)
    have hn := hreturn '\x85' (by decide) (by decide)
    rw [lineFeeds]
    · rw [ih h.2, if_neg (by simp [hr, hn])]
    · intro cs' hc
      exact absurd hc hr

theorem graphic_of_isNameChar {c : Char} (h : Scanner.isNameChar c = true) : ' ' ≤ c ∧ c ≤ '~' := by
  have hranges : Scanner.isNameChar c =
      (decide (65 ≤ c.val ∧ c.val ≤ 90) || (97 ≤ c.val && c.val ≤ 122) || (48 ≤ c.val && c.val ≤ 57) ||
        c == '-' || c == '_') := rfl
  simp only [hranges, Bool.or_eq_true, Bool.and_eq_true, decide_eq_true_eq, beq_iff_eq, Char.le_def,
    UInt32.le_iff_toNat_le] at h ⊢
  change 32 ≤ c.val.toNat ∧ c.val.toNat ≤ 126
  rcases h with (((h | h) | h) | rfl) | rfl
  · change 65 ≤ c.val.toNat ∧ c.val.toNat ≤ 90 at h
    omega
  · change 97 ≤ c.val.toNat ∧ c.val.toNat ≤ 122 at h
    omega
  · change 48 ≤ c.val.toNat ∧ c.val.toNat ≤ 57 at h
    omega
  · decide
  · decide

theorem isPrintable_of_isWordText {c : Char} (h : IsWordText c) : isPrintable c = true := by
  rcases h with h | h
  · simp [isPrintable, graphic_of_isNameChar h]
  · have hmarks : ∀ d ∈ [' ', ':', '\n'], isPrintable d = true := by simp [isPrintable]
    exact hmarks c h

end FlowLint.Yaml
