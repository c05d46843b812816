import FlowLint.Json.Printer
import FlowLint.Json.Reader
import FlowLint.Proofs.Json.Fields
import FlowLint.Proofs.Text.Digits

/-!
# JSON text that is written and read back

A value is read back from the text in lines that is written for it, if it holds no floating-point number and nothing that is
unreadable, if its integers take up 64 bits at most, and if it is not nested too deep (`read?_lines`). The text is cut into the
tokens of the value, whatever the indentation (`Plain.cut`), and the tokens are read as the value (`Plain.parsed`). Strings are read
back whatever their characters are (`codeUnits_quoted`, `pairUnits_toNat`).
-/

namespace FlowLint.Json

/-- A value without floating-point numbers, with integers of 64 bits at most, and nested at most `n` deep. -/
inductive Plain : Nat → Json → Prop where
  | null {n : Nat} : Plain n .null
  | bool {n : Nat} (b : Bool) : Plain n (.bool b)
  | int {n : Nat} {i : Int} (hlow : Int64.minValue.toInt ≤ i) (hhigh : i < UInt64.size) : Plain n (.int i)
  | string {n : Nat} (s : String) : Plain n (.string s)
  | array {n : Nat} {items : List Json} (h : ∀ v ∈ items, Plain n v) : Plain (n + 1) (.array items)
  | object {n : Nat} {fields : List (String × Json)} (h : ∀ f ∈ fields, Plain n f.2) : Plain (n + 1) (.object fields)

namespace Plain

variable {n : Nat} {α : Type} {write : α → Json} {as : List α}

theorem ofWord [Vocabulary α] (a : α) : Plain n (.ofWord a) := .string _

theorem ofNat {m : Nat} (h : m < UInt64.size) : Plain n (.ofNat m) := by
  have hlow : Int64.minValue.toInt ≤ 0 := by decide
  exact .int (hlow.trans (Int.natCast_nonneg m)) (Int.ofNat_lt.2 h)

/-- A list is plain if its items are. -/
theorem ofList (h : ∀ a ∈ as, Plain n (write a)) : Plain (n + 1) (.ofList write as) :=
  .array (List.forall_mem_map.2 h)

/-- A field that is left out if the list is empty is plain if the items are. -/
theorem fieldUnlessEmpty {key : String} (h : ∀ a ∈ as, Plain n (write a)) :
    ∀ f ∈ Json.fieldUnlessEmpty key write as, Plain (n + 1) f.2 := by
  cases as with
  | nil => exact nofun
  | cons a as => exact List.forall_mem_singleton.2 (ofList h)

end Plain

mutual

/-- The tokens of a value. -/
def tokensOf : Json → List Token
  | .string s => [.string (some s)]
  | .array items => .beginArray :: tokensOfItems items ++ [.endArray]
  | .object fields => .beginObject :: tokensOfFields fields ++ [.endObject]
  | v => [.scalar v]

/-- The tokens of items, divided by commas. -/
def tokensOfItems : List Json → List Token
  | [] => []
  | [v] => v.tokensOf
  | v :: vs => v.tokensOf ++ .comma :: tokensOfItems vs

/-- The tokens of fields, divided by commas. -/
def tokensOfFields : List (String × Json) → List Token
  | [] => []
  | [(k, v)] => .string (some k) :: .colon :: v.tokensOf
  | (k, v) :: fs => .string (some k) :: .colon :: v.tokensOf ++ .comma :: tokensOfFields fs

end

/-! ## Strings -/

/-- A control character is escaped by its number in four digits. -/
theorem hex4?_control {n : Nat} (h : n < 32) : hex4? '0' '0' (Nat.digitChar (n / 16)) (Nat.digitChar (n % 16)) = some n := by
  have hzero : Text.digit? 16 '0' = some 0 := Text.digit?_digitChar 0 (by decide)
  have hhigh := Text.digit?_digitChar (n / 16) (by omega)
  have hlow := Text.digit?_digitChar (n % 16) (by omega)
  have hsum : n / 16 * 16 + n % 16 = n := by omega
  simp [hex4?, hzero, hhigh, hlow, hsum]

/-- The escaped form of a character is read as the character. -/
theorem codeUnits_escape (c : Char) (rest : List Char) :
    codeUnits (escape c ++ rest) = (codeUnits rest).map fun p => (c.toNat :: p.1, p.2) := by
  unfold escape
  split
  case h_8 hquote hslash _ _ _ _ _ =>
    split
    case isTrue hcontrol =>
      simp [codeUnits, hex4?_control hcontrol, Option.map_eq_bind]
    case isFalse hcontrol =>
      rw [List.singleton_append, codeUnits, if_neg hcontrol, Option.map_eq_bind]
      · rfl
      -- it neither ends the string nor starts an escape
      · exact hquote
      · exact fun _ _ _ _ _ h _ => hslash h
      · exact fun _ _ h _ => hslash h
  all_goals simp [codeUnits, unescape?, Option.map_eq_bind]

/-- A quoted string is read to its closing quote, whatever it holds. -/
theorem codeUnits_quoted (cs rest : List Char) :
    codeUnits (cs.flatMap escape ++ '"' :: rest) = some (cs.map Char.toNat, rest) := by
  induction cs with
  | nil => simp [codeUnits]
  | cons c cs ih =>
    rw [List.flatMap_cons, List.append_assoc, codeUnits_escape, ih]
    rfl

/-- No character is a surrogate. -/
theorem not_isSurrogate (c : Char) : isHighSurrogate c.toNat = false ∧ isLowSurrogate c.toNat = false := by
  have hvalid : c.toNat < 0xD800 ∨ 0xDFFF < c.toNat ∧ c.toNat < 0x110000 := c.valid
  simp only [isHighSurrogate, isLowSurrogate, Bool.and_eq_false_iff, decide_eq_false_iff_not]
  omega

/-- The characters of a string are read back from their code units. -/
theorem pairUnits_toNat (cs : List Char) : pairUnits (cs.map Char.toNat) = some cs := by
  induction cs with
  | nil => rfl
  | cons c cs ih =>
    obtain ⟨hhigh, hlow⟩ := not_isSurrogate c
    cases cs with
    | nil => simp [pairUnits, hhigh, hlow]
    | cons d cs =>
      rw [List.map_cons, List.map_cons, pairUnits, hhigh, hlow]
      rw [List.map_cons] at ih
      simp [ih]

/-! ## Numbers -/

/-- A text that does not go on with a number in front of it. -/
def EndsNumber (rest : List Char) : Prop :=
  ∀ c ∈ rest.head?, c.isDigit = false ∧ c ≠ '.' ∧ c ≠ 'e' ∧ c ≠ 'E'

theorem EndsNumber.nil : EndsNumber [] := nofun

theorem EndsNumber.cons {c : Char} (rest : List Char) (h : c.isDigit = false ∧ c ≠ '.' ∧ c ≠ 'e' ∧ c ≠ 'E') :
    EndsNumber (c :: rest) := by
  rintro _ ⟨⟩
  exact h

namespace EndsNumber

variable {rest : List Char}

theorem takeWhile_isDigit (h : EndsNumber rest) : rest.takeWhile Char.isDigit = [] := by
  cases rest with
  | nil => rfl
  | cons c rest => simp [(h c rfl).1]

theorem dropWhile_isDigit (h : EndsNumber rest) : rest.dropWhile Char.isDigit = rest := by
  cases rest with
  | nil => rfl
  | cons c rest => simp [(h c rfl).1]

theorem placesPart?_eq (h : EndsNumber rest) : placesPart? rest = some (none, rest) := by
  unfold placesPart?
  split
  · exact absurd rfl (h '.' rfl).2.1
  · rfl

theorem powerPart?_eq (h : EndsNumber rest) : powerPart? rest = some (none, rest) := by
  unfold powerPart?
  split
  case h_1 c rest =>
    obtain ⟨-, -, hlower, hupper⟩ := h c rfl
    rw [if_neg (not_or.2 ⟨hlower, hupper⟩)]
  · rfl

/-- The digits of a number are read as its whole part. -/
theorem wholePart?_toDigits (h : EndsNumber rest) (n : Nat) :
    wholePart? (Nat.toDigits 10 n ++ rest) = some (Nat.toDigits 10 n, rest) := by
  by_cases hn : n = 0
  · subst hn
    cases rest with
    | nil => rfl
    | cons c rest => simp [wholePart?, (h c rfl).1]
  · have hhead := Text.head?_toDigits hn
    have hdigits : ∀ c ∈ Nat.toDigits 10 n, c.isDigit = true := fun c hc => Text.isDigit_of_mem_toDigits hc
    have hne : Nat.toDigits 10 n ≠ [] := Nat.toDigits_ne_nil
    unfold wholePart?
    split
    case h_1 heq =>
      obtain ⟨c, cs, hcs⟩ := List.exists_cons_of_ne_nil hne
      rw [hcs] at heq hhead
      cases heq
      exact absurd rfl hhead
    case h_2 =>
      rw [List.takeWhile_append_of_pos hdigits, List.dropWhile_append_of_pos hdigits, h.takeWhile_isDigit, h.dropWhile_isDigit,
        List.append_nil]
      simp [hne]

end EndsNumber

theorem natOfDigits_toDigits (n : Nat) : natOfDigits (Nat.toDigits 10 n) = n := by
  have h := Nat.ofDigitChars_ten_toDigits (n := n)
  simpa [natOfDigits, Nat.ofDigitChars, digitValue, Nat.mul_comm] using h

/-- An integer of 64 bits at most is read back. -/
theorem number?_intText {i : Int} (hlow : Int64.minValue.toInt ≤ i) (hhigh : i < UInt64.size) {rest : List Char}
    (hrest : EndsNumber rest) : number? (intText i ++ rest) = some (.int i, rest) := by
  have hwhole := hrest.wholePart?_toDigits i.natAbs
  by_cases hneg : i < 0
  · have hint : integerOf true (Nat.toDigits 10 i.natAbs) = .int i := by
      have hbounds : 0 < i.natAbs ∧ Int64.minValue.toInt ≤ -(i.natAbs : Int) := by omega
      have hi : -(i.natAbs : Int) = i := by omega
      rw [integerOf, natOfDigits_toDigits, if_pos rfl, if_pos hbounds, hi]
    simp [intText, hneg, number?, hwhole, hrest.placesPart?_eq, hrest.powerPart?_eq, hint]
  · have hint : integerOf false (Nat.toDigits 10 i.natAbs) = .int i := by
      have hbound : i.natAbs < UInt64.size := by omega
      have hi : (i.natAbs : Int) = i := by omega
      rw [integerOf, natOfDigits_toDigits, if_neg nofun, if_pos hbound, hi]
    obtain ⟨c, cs, hdigits, hc⟩ := Text.exists_toDigits_eq_cons i.natAbs
    have hminus : ∀ behind, Nat.toDigits 10 i.natAbs ++ rest = '-' :: behind → False := by
      rw [hdigits]
      rintro _ ⟨⟩
      cases hc
    rw [intText, if_neg hneg, number?]
    · simp [hwhole, hrest.placesPart?_eq, hrest.powerPart?_eq, hint]
    · exact hminus

/-! ## Tokens -/

/-- A digit or a minus sign starts a number. -/
theorem token?_number {c : Char} (hc : c.isDigit = true ∨ c = '-') (cs : List Char) :
    token? (c :: cs) = (number? (c :: cs)).map fun p => (.scalar p.1, p.2) := by
  unfold token?
  split
  case h_11 => rfl
  all_goals
    rename_i heq
    cases heq
    exact absurd hc (by decide)

/-- An integer starts with a digit or a minus sign. -/
theorem exists_intText_eq_cons (i : Int) : ∃ c cs, intText i = c :: cs ∧ (c.isDigit = true ∨ c = '-') := by
  by_cases hneg : i < 0
  · exact ⟨'-', Nat.toDigits 10 i.natAbs, by rw [intText, if_pos hneg], .inr rfl⟩
  · obtain ⟨c, cs, hdigits, hc⟩ := Text.exists_toDigits_eq_cons i.natAbs
    exact ⟨c, cs, by rw [intText, if_neg hneg, hdigits], .inl hc⟩

/-- The tokens of a text, read with fuel for each of its characters. -/
def Lexes (cs : List Char) (ts : List Token) : Prop :=
  ∀ fuel, cs.length ≤ fuel → tokens fuel cs = some ts

namespace Lexes

variable {c : Char} {cs rest : List Char} {t : Token} {ts : List Token}

theorem nil : Lexes [] [] := by
  intro fuel _
  cases fuel <;> rfl

/-- Blanks are passed over. -/
theorem blank (hc : isBlank c = true) (h : Lexes rest ts) : Lexes (c :: rest) ts := by
  intro fuel hfuel
  cases fuel with
  | zero => cases hfuel
  | succ fuel =>
    rw [tokens, if_pos hc]
    exact h fuel (Nat.le_of_succ_le_succ hfuel)

/-- A token is read, and then the text behind it. -/
theorem token (hc : isBlank c = false) (htoken : token? (c :: cs) = some (t, rest)) (hsuffix : rest <:+ cs)
    (h : Lexes rest ts) : Lexes (c :: cs) (t :: ts) := by
  intro fuel hfuel
  cases fuel with
  | zero => cases hfuel
  | succ fuel =>
    have hbehind := h fuel (hsuffix.length_le.trans (Nat.le_of_succ_le_succ hfuel))
    rw [tokens, if_neg (by simp [hc]), htoken]
    simp [hbehind]

/-- Indentation is passed over. -/
theorem newline (level : Nat) (h : Lexes rest ts) : Lexes (newline level ++ rest) ts := by
  have hspaces : ∀ n, Lexes (List.replicate n ' ' ++ rest) ts := by
    intro n
    induction n with
    | zero => exact h
    | succ n ih => exact ih.blank rfl
  exact (hspaces (2 * level)).blank rfl

/-- A quoted string is one token. -/
theorem quote (s : String) (h : Lexes rest ts) : Lexes (quote s ++ rest) (.string (some s) :: ts) := by
  have htoken : token? ('"' :: (s.toList.flatMap escape ++ '"' :: rest)) = some (.string (some s), rest) := by
    simp [token?, codeUnits_quoted, pairUnits_toNat]
  have hlexes := h.token rfl htoken ⟨s.toList.flatMap escape ++ ['"'], by simp⟩
  simpa [Json.quote] using hlexes

/-- An integer is one token. -/
theorem int {i : Int} (hlow : Int64.minValue.toInt ≤ i) (hhigh : i < UInt64.size) (hrest : EndsNumber rest)
    (h : Lexes rest ts) : Lexes (intText i ++ rest) (.scalar (.int i) :: ts) := by
  have hnumber := number?_intText hlow hhigh hrest
  obtain ⟨c, cs, htext, hc⟩ := exists_intText_eq_cons i
  have hblank : isBlank c = false := by
    simp only [isBlank, Bool.or_eq_false_iff, beq_eq_false_iff_ne]
    refine ⟨⟨⟨?_, ?_⟩, ?_⟩, ?_⟩ <;> rintro rfl <;> exact absurd hc (by decide)
  have htoken : token? (c :: (cs ++ rest)) = some (.scalar (.int i), rest) := by
    rw [token?_number hc, ← List.cons_append, ← htext, hnumber]
    rfl
  rw [htext]
  exact h.token hblank htoken ⟨cs, rfl⟩

end Lexes

/-! ## The text of a value -/

/-- The text of a value in lines is cut into its tokens, wherever it stands. -/
def Cut (v : Json) : Prop :=
  ∀ (level : Nat) (rest : List Char) (ts : List Token), EndsNumber rest → Lexes rest ts →
    Lexes (v.pretty level ++ rest) (v.tokensOf ++ ts)

theorem EndsNumber.newline (level : Nat) (rest : List Char) : EndsNumber (newline level ++ rest) :=
  .cons _ (by decide)

theorem EndsNumber.comma (rest : List Char) : EndsNumber (',' :: rest) :=
  .cons _ (by decide)

namespace Lexes

variable {rest : List Char} {ts : List Token}

theorem comma (h : Lexes rest ts) : Lexes (',' :: rest) (.comma :: ts) :=
  h.token rfl rfl List.suffix_rfl

/-- Items are cut into their tokens if each of them is. -/
theorem items {items : List Json} (hitems : ∀ v ∈ items, v.Cut) (level : Nat) (hrest : EndsNumber rest) (h : Lexes rest ts) :
    Lexes (prettyItems level items ++ rest) (tokensOfItems items ++ ts) := by
  induction items with
  | nil => exact h
  | cons v vs ih =>
    obtain ⟨hv, hvs⟩ := List.forall_mem_cons.1 hitems
    cases vs with
    | nil => simpa [prettyItems, tokensOfItems] using (hv level rest ts hrest h).newline level
    | cons w vs =>
      have hbehind := (ih hvs).comma
      simpa [prettyItems, tokensOfItems] using (hv level _ _ (.comma _) hbehind).newline level

/-- Fields are cut into their tokens if the value of each of them is. -/
theorem fields {fields : List (String × Json)} (hfields : ∀ f ∈ fields, f.2.Cut) (level : Nat) (hrest : EndsNumber rest)
    (h : Lexes rest ts) : Lexes (prettyFields level fields ++ rest) (tokensOfFields fields ++ ts) := by
  have hkey : ∀ (k : String) (v : Json) (cs : List Char) (us : List Token), v.Cut → EndsNumber cs → Lexes cs us →
      Lexes (Json.newline level ++ Json.quote k ++ ':' :: ' ' :: v.pretty level ++ cs)
        (.string (some k) :: .colon :: v.tokensOf ++ us) := by
    intro k v cs us hv hcs hus
    have hvalue := (hv level cs us hcs hus).blank (c := ' ') rfl
    have hcolon := hvalue.token (c := ':') rfl rfl List.suffix_rfl
    simpa using (hcolon.quote k).newline level
  induction fields with
  | nil => exact h
  | cons f fs ih =>
    obtain ⟨k, v⟩ := f
    obtain ⟨hv, hfs⟩ := List.forall_mem_cons.1 hfields
    cases fs with
    | nil => exact hkey k v rest ts hv hrest h
    | cons g fs => simpa [prettyFields, tokensOfFields] using hkey k v _ _ hv (.comma _) (ih hfs).comma

end Lexes

/-- The text of a plain value is cut into its tokens. -/
theorem Plain.cut {n : Nat} {v : Json} (hv : Plain n v) : v.Cut := by
  induction hv with
  | null => exact fun _ _ _ _ h => h.token rfl rfl ⟨['u', 'l', 'l'], rfl⟩
  | bool b =>
    cases b with
    | false => exact fun _ _ _ _ h => h.token rfl rfl ⟨['a', 'l', 's', 'e'], rfl⟩
    | true => exact fun _ _ _ _ h => h.token rfl rfl ⟨['r', 'u', 'e'], rfl⟩
  | int hlow hhigh => exact fun _ _ _ hrest h => h.int hlow hhigh hrest
  | string s => exact fun _ _ _ _ h => h.quote s
  | @array _ items _ ih =>
    intro level rest ts hrest h
    have hclose : Lexes (']' :: rest) (.endArray :: ts) := h.token rfl rfl List.suffix_rfl
    cases items with
    | nil => exact hclose.token rfl rfl List.suffix_rfl
    | cons v vs =>
      have hitems := Lexes.items ih (level + 1) (.newline level _) (hclose.newline level)
      simpa [pretty, tokensOf] using hitems.token (c := '[') rfl rfl List.suffix_rfl
  | @object _ fields _ ih =>
    intro level rest ts hrest h
    have hclose : Lexes ('\x7d' :: rest) (.endObject :: ts) := h.token rfl rfl List.suffix_rfl
    cases fields with
    | nil => exact hclose.token rfl rfl List.suffix_rfl
    | cons f fs =>
      have hfields := Lexes.fields ih (level + 1) (.newline level _) (hclose.newline level)
      simpa [pretty, tokensOf] using hfields.token (c := '\x7b') rfl rfl List.suffix_rfl

/-! ## The value of tokens -/

/-- A value is read from its tokens inside `level` arrays and objects, with fuel for each token twice. -/
def Parsed (level : Nat) (v : Json) : Prop :=
  ∀ (fuel : Nat) (ts : List Token), 2 * v.tokensOf.length ≤ fuel → value? fuel level (v.tokensOf ++ ts) = some (v, ts)

/-- The tokens of a value do not start with the end of an array. -/
theorem tokensOf_ne_endArray (v : Json) (ts us : List Token) : v.tokensOf ++ ts ≠ .endArray :: us := by
  cases v <;> simp [tokensOf]

theorem tokensOfItems_ne_endArray (v : Json) (vs : List Json) (ts us : List Token) :
    tokensOfItems (v :: vs) ++ ts ≠ .endArray :: us := by
  cases vs with
  | nil => exact tokensOf_ne_endArray v ts us
  | cons w vs =>
    rw [tokensOfItems, List.append_assoc]
    · exact tokensOf_ne_endArray v _ us
    · exact nofun

theorem tokensOfFields_ne_endObject (f : String × Json) (fs : List (String × Json)) (ts us : List Token) :
    tokensOfFields (f :: fs) ++ ts ≠ .endObject :: us := by
  cases fs <;> simp [tokensOfFields]

/-- Items are read up to the end of their array if each of them is. -/
theorem items?_tokensOfItems {level : Nat} {items : List Json} (hne : items ≠ []) (hitems : ∀ v ∈ items, v.Parsed level) :
    ∀ (fuel : Nat) (ts : List Token), 2 * (tokensOfItems items).length + 1 ≤ fuel →
      items? fuel level (tokensOfItems items ++ .endArray :: ts) = some (items, ts) := by
  induction items with
  | nil => exact absurd rfl hne
  | cons v vs ih =>
    obtain ⟨hv, hvs⟩ := List.forall_mem_cons.1 hitems
    intro fuel ts hfuel
    obtain ⟨fuel, rfl⟩ : ∃ n, fuel = n + 1 := ⟨fuel - 1, by omega⟩
    cases vs with
    | nil =>
      have hvalue := hv fuel (.endArray :: ts) (by simpa [tokensOfItems] using hfuel)
      simp [tokensOfItems, items?, hvalue]
    | cons w vs =>
      simp only [tokensOfItems, List.length_append, List.length_cons] at hfuel
      have hvalue := hv fuel (.comma :: (tokensOfItems (w :: vs) ++ .endArray :: ts)) (by omega)
      have hbehind := ih nofun hvs fuel ts (by omega)
      simp [tokensOfItems, items?, hvalue, hbehind]

/-- Fields are read up to the end of their object if the value of each of them is. -/
theorem fieldsAt?_tokensOfFields {level : Nat} {fields : List (String × Json)} (hne : fields ≠ [])
    (hfields : ∀ f ∈ fields, f.2.Parsed level) :
    ∀ (fuel : Nat) (ts : List Token), 2 * (tokensOfFields fields).length + 1 ≤ fuel →
      fieldsAt? fuel level (tokensOfFields fields ++ .endObject :: ts) = some (fields.map fun f => (some f.1, f.2), ts) := by
  induction fields with
  | nil => exact absurd rfl hne
  | cons f fs ih =>
    obtain ⟨k, v⟩ := f
    obtain ⟨hv, hfs⟩ := List.forall_mem_cons.1 hfields
    change v.Parsed level at hv
    intro fuel ts hfuel
    obtain ⟨fuel, rfl⟩ : ∃ n, fuel = n + 1 := ⟨fuel - 1, by omega⟩
    cases fs with
    | nil =>
      simp only [tokensOfFields, List.length_cons] at hfuel
      have hvalue := hv fuel (.endObject :: ts) (by omega)
      simp [tokensOfFields, fieldsAt?, hvalue]
    | cons g fs =>
      simp only [tokensOfFields, List.length_append, List.length_cons] at hfuel
      have hvalue := hv fuel (.comma :: (tokensOfFields (g :: fs) ++ .endObject :: ts)) (by omega)
      have hbehind := ih nofun hfs fuel ts (by omega)
      simp [tokensOfFields, fieldsAt?, hvalue, hbehind]

theorem bounded_eq {level : Nat} (h : level < maxDepth) (v : Json) : bounded level v = v :=
  if_pos h

/-- Fields with readable keys are an object. -/
theorem ofFields_map_some (fields : List (String × Json)) :
    ofFields (fields.map fun f => (some f.1, f.2)) = .object fields := by
  have hkeys : (fields.map fun f => (some f.1, f.2)).mapM (fun f => f.1.map fun k => (k, f.2)) = some fields := by
    induction fields with
    | nil => rfl
    | cons f fs ih => simp [ih]
  rw [ofFields, hkeys]

/-- A plain value is read from its tokens, if the arrays and objects around it leave room for its depth. -/
theorem Plain.parsed {n level : Nat} {v : Json} (hv : Plain n v) (hdepth : n + level ≤ maxDepth) : v.Parsed level := by
  induction hv generalizing level with
  | @array n items _ ih =>
    intro fuel ts hfuel
    simp only [tokensOf, List.length_append, List.length_cons] at hfuel
    obtain ⟨fuel, rfl⟩ : ∃ m, fuel = m + 1 := ⟨fuel - 1, by omega⟩
    have hlevel : level < maxDepth := by omega
    cases items with
    | nil => simp [tokensOf, tokensOfItems, value?, bounded_eq hlevel]
    | cons v vs =>
      have hparsed : ∀ w ∈ v :: vs, w.Parsed (level + 1) := fun w hw => ih w hw (by omega)
      have hitems := items?_tokensOfItems (List.cons_ne_nil v vs) hparsed fuel ts (by omega)
      rw [tokensOf, List.cons_append, List.cons_append, List.append_assoc, List.singleton_append, value?, hitems]
      · simp only [Option.bind_eq_bind, Option.bind_some, bounded_eq hlevel]
      · exact tokensOfItems_ne_endArray v vs (.endArray :: ts)
  | @object n fields _ ih =>
    intro fuel ts hfuel
    simp only [tokensOf, List.length_append, List.length_cons] at hfuel
    obtain ⟨fuel, rfl⟩ : ∃ m, fuel = m + 1 := ⟨fuel - 1, by omega⟩
    have hlevel : level < maxDepth := by omega
    cases fields with
    | nil => simp [tokensOf, tokensOfFields, value?, bounded_eq hlevel]
    | cons f fs =>
      have hparsed : ∀ g ∈ f :: fs, g.2.Parsed (level + 1) := fun g hg => ih g hg (by omega)
      have hfields := fieldsAt?_tokensOfFields (List.cons_ne_nil f fs) hparsed fuel ts (by omega)
      rw [tokensOf, List.cons_append, List.cons_append, List.append_assoc, List.singleton_append, value?, hfields]
      · simp only [Option.bind_eq_bind, Option.bind_some, ofFields_map_some, bounded_eq hlevel]
      · exact tokensOfFields_ne_endObject f fs (.endObject :: ts)
  | _ =>
    intro fuel ts hfuel
    cases fuel with
    | zero => cases hfuel
    | succ fuel => rfl

/-- A plain value is read back from its text in lines, if it is not nested deeper than what is read. -/
theorem read?_lines {n : Nat} {v : Json} (hv : Plain n v) (hdepth : n ≤ maxDepth) : read? v.lines = some v := by
  have htokens := hv.cut 0 [] [] .nil .nil _ le_rfl
  have hvalue := hv.parsed (show n + 0 ≤ maxDepth from hdepth) _ [] (Nat.le_succ _)
  simp only [List.append_nil] at htokens hvalue
  simp [read?, lines, htokens, hvalue]

end FlowLint.Json
