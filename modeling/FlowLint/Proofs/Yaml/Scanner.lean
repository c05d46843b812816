import FlowLint.Proofs.Yaml.Words

/-!
# Scanning indented mappings

The text of a value of words is cut into its tokens (`tokens?_entriesText`). The proof follows the scanner from line to line
(`Scanner.Reads`): `Scanner.reads_key` passes a key and its colon, `Scanner.reads_value` the value behind it, and
`Scanner.reads_entries` all lines of a mapping. A mapping is closed only when the first token behind it is read, which is
why a scanner at the start of a line reads what the same one does with the mapping closed (`Scanner.reads_blockEnd`).
-/

namespace FlowLint.Yaml

/-! ## Lines -/

/-- How many blanks a line starts with. -/
def indentation (cs : List Char) : Nat := (cs.takeWhile (· == ' ')).length

/-- A line behind its indentation. -/
def unindented (cs : List Char) : List Char := cs.dropWhile (· == ' ')

/-- Whether a word comes next, behind the indentation of a line, or nothing at all. -/
def StartsWord (cs : List Char) : Prop := ∀ c ∈ (unindented cs).head?, Scanner.isNameChar c = true

theorem indentation_cons_blank (cs : List Char) : indentation (' ' :: cs) = indentation cs + 1 := rfl

theorem unindented_cons_blank (cs : List Char) : unindented (' ' :: cs) = unindented cs := rfl

theorem length_unindented_le (cs : List Char) : (unindented cs).length ≤ cs.length :=
  (List.dropWhile_suffix _).length_le

theorem indentation_cons_of_ne {c : Char} (h : c ≠ ' ') (cs : List Char) : indentation (c :: cs) = 0 := by
  simp [indentation, h]

theorem unindented_cons_of_ne {c : Char} (h : c ≠ ' ') (cs : List Char) : unindented (c :: cs) = c :: cs := by
  simp [unindented, h]

/-- The position behind some characters of a line. -/
def Position.behind (p : Position) (n : Nat) : Position := ⟨p.line, p.column + n⟩

theorem Position.after_of_not_break {p : Position} {c : Char} (h : isBreak c = false) : p.after c = p.behind 1 := by
  rw [after, h]
  rfl

theorem Position.behind_behind (p : Position) (m n : Nat) : (p.behind m).behind n = p.behind (m + n) := by
  simp only [behind, Nat.add_assoc]

/-- A line that is indented by a number of blanks and starts with a word. -/
theorem indentation_replicate {c : Char} (h : Scanner.isNameChar c = true) (n : Nat) (cs : List Char) :
    indentation (List.replicate n ' ' ++ c :: cs) = n := by
  induction n with
  | zero => exact indentation_cons_of_ne (ne_of_isNameChar h (by decide)) cs
  | succ n ih => rw [List.replicate_succ, List.cons_append, indentation_cons_blank, ih]

theorem unindented_replicate {c : Char} (h : Scanner.isNameChar c = true) (n : Nat) (cs : List Char) :
    unindented (List.replicate n ' ' ++ c :: cs) = c :: cs := by
  induction n with
  | zero => exact unindented_cons_of_ne (ne_of_isNameChar h (by decide)) cs
  | succ n ih => rw [List.replicate_succ, List.cons_append, unindented_cons_blank, ih]

/-! ## Plain scalars -/

/-- A plain scalar goes on over the characters of a word. -/
theorem plain?_word {cs : List Char} (hcs : ∀ c ∈ cs, Scanner.isNameChar c = true) {p : Position}
    (hp : p.column ≠ 0 ∨ ∀ c ∈ cs.head?, c ≠ '-') (indent : Nat) (t : List Char) :
    plain? false indent .empty p (cs ++ t) =
      (plain? false indent .empty (p.behind cs.length) t).map fun r => (cs ++ r.1, r.2) := by
  induction cs generalizing p with
  | nil => simp [Position.behind]
  | cons c cs ih =>
    rw [List.forall_mem_cons] at hcs
    have hmarks : (p.column == 0 && (startsMark '-' (c :: (cs ++ t)) || startsMark '.' (c :: (cs ++ t)))) = false := by
      have hdot := ne_of_isNameChar hcs.1 (d := '.') (by decide)
      rcases hp with hp | hp
      · simp [hp]
      · simp [startsMark, hdot, hp c rfl]
    have hends : endsPlain false indent .empty p c (cs ++ t) = false := by
      have hcolon := ne_of_isNameChar hcs.1 (d := ':') (by decide)
      simp [endsPlain, Gap.empty, Gap.isBroken, hmarks, hcolon]
    rw [List.cons_append, plain?, isWhite_of_isNameChar hcs.1, if_neg Bool.false_ne_true, hends, if_neg Bool.false_ne_true,
      if_neg (by simp), Position.after_of_not_break (isBreak_of_isNameChar hcs.1), ih hcs.2 (.inl (Nat.succ_ne_zero _)),
      Position.behind_behind, List.length_cons, Nat.add_comm 1]
    cases plain? false indent .empty (p.behind (cs.length + 1)) t <;> rfl

/-- A plain scalar ends at the colon behind a key. -/
theorem plain?_colon {t : List Char} (ht : atGap t = true) (indent : Nat) (p : Position) :
    plain? false indent .empty p (':' :: t) = some ([], false, ⟨p, ':' :: t⟩) := by
  have hends : endsPlain false indent .empty p ':' t = true := by simp [endsPlain, ht]
  rw [plain?, if_neg (by decide), if_pos hends]
  rfl

/-- The indentation of a line belongs to no scalar. -/
theorem plain?_indentation (indent : Nat) (p : Position) (cs : List Char) :
    plain? false indent (.breaks ['\n']) p cs =
      plain? false indent (.breaks ['\n']) (p.behind (indentation cs)) (unindented cs) := by
  induction cs generalizing p with
  | nil => rfl
  | cons c cs ih =>
    by_cases hc : c = ' '
    · subst hc
      rw [indentation_cons_blank, unindented_cons_blank, plain?, if_pos (by decide), if_neg (by simp)]
      rw [Position.after_of_not_break (by decide), show Gap.push (.breaks ['\n']) ' ' = .breaks ['\n'] from rfl, ih,
        Position.behind_behind, Nat.add_comm]
    · rw [indentation_cons_of_ne hc, unindented_cons_of_ne hc]
      rfl

/-- A plain scalar ends with its line, if the next one is indented less than it. -/
theorem plain?_lineEnd {indent : Nat} {cs : List Char} (hindent : indentation cs < indent) (hcs : StartsWord cs)
    (p : Position) :
    plain? false indent .empty p ('\n' :: cs) = some ([], true, ⟨⟨p.line + 1, indentation cs⟩, unindented cs⟩) := by
  have hp : (p.after '\n').behind (indentation cs) = ⟨p.line + 1, indentation cs⟩ := by
    rw [Position.after, if_pos (by decide), Position.behind, Nat.zero_add]
  rw [plain?, if_pos (by decide), if_neg (by simp), show Gap.push .empty '\n' = .breaks ['\n'] from rfl,
    plain?_indentation, hp]
  unfold StartsWord at hcs
  cases h : unindented cs with
  | nil => rfl
  | cons c t =>
    rw [h] at hcs
    have hends : endsPlain false indent (.breaks ['\n']) ⟨p.line + 1, indentation cs⟩ c t = true := by
      simp [endsPlain, Gap.isBroken, hindent]
    rw [plain?, isWhite_of_isNameChar (hcs c rfl), if_neg Bool.false_ne_true, if_pos hends]
    rfl

/-! ## White space -/

/-- White space ends at the characters of words and at colons. -/
theorem skipGap_stop {c : Char} (hc : Scanner.isNameChar c = true ∨ c = ':') (keys : Bool) (p : Position) (cs : List Char) :
    skipGap false keys false p (c :: cs) = (keys, ⟨p, c :: cs⟩) := by
  rcases hc with hc | rfl
  · have hs := ne_of_isNameChar hc (d := ' ') (by decide)
    have ht := ne_of_isNameChar hc (d := '\t') (by decide)
    have hm := ne_of_isNameChar hc (d := byteOrderMark) (by decide)
    have hh := ne_of_isNameChar hc (d := '#') (by decide)
    simp [skipGap, isBreak_of_isNameChar hc, hs, ht, hm, hh]
  · simp [skipGap, isBreak, byteOrderMark]

theorem skipGap_indentation (keys : Bool) (p : Position) (cs : List Char) :
    skipGap false keys false p cs = skipGap false keys false (p.behind (indentation cs)) (unindented cs) := by
  induction cs generalizing p with
  | nil => rfl
  | cons c cs ih =>
    by_cases hc : c = ' '
    · subst hc
      rw [indentation_cons_blank, unindented_cons_blank, skipGap, if_neg (by decide), if_pos (by simp),
        Position.after_of_not_break (by decide), ih, Position.behind_behind, Nat.add_comm]
    · rw [indentation_cons_of_ne hc, unindented_cons_of_ne hc]
      rfl

/-- Behind the end of a line a key may start. -/
theorem skipGap_lineEnd (p : Position) (cs : List Char) :
    skipGap false false false p ('\n' :: cs) = skipGap false true false ⟨p.line + 1, indentation cs⟩ (unindented cs) := by
  have hp : (p.after '\n').behind (indentation cs) = ⟨p.line + 1, indentation cs⟩ := by
    rw [Position.after, if_pos (by decide), Position.behind, Nat.zero_add]
  rw [skipGap, if_pos (by decide), skipGap_indentation, hp]
  rfl

namespace Scanner

/-! ## Steps -/

/-- One scanner comes to another one: it has the same tokens in the end. -/
def Reads (s s' : Scanner) : Prop :=
  ∀ fuel > s.cursor.rest.length, ∃ fuel' > s'.cursor.rest.length, tokens? fuel s = tokens? fuel' s'

theorem Reads.trans {s s' s'' : Scanner} (h : s.Reads s') (h' : s'.Reads s'') : s.Reads s'' := by
  intro fuel hfuel
  obtain ⟨fuel', hfuel', heq⟩ := h fuel hfuel
  obtain ⟨fuel'', hfuel'', heq'⟩ := h' fuel' hfuel'
  exact ⟨fuel'', hfuel'', heq.trans heq'⟩

theorem Reads.refl (s : Scanner) : s.Reads s := fun fuel hfuel => ⟨fuel, hfuel, rfl⟩

/-- A token is read that is not empty. -/
theorem Reads.of_token {s s' : Scanner} (hrest : s.advance.cursor.rest.isEmpty = false) (h : s.advance.token? = some s')
    (hlt : s'.cursor.rest.length < s.cursor.rest.length) : s.Reads s' := by
  intro fuel hfuel
  cases fuel with
  | zero => exact absurd hfuel (Nat.not_lt_zero _)
  | succ fuel =>
    refine ⟨fuel, by omega, ?_⟩
    rw [tokens?, hrest, if_neg Bool.false_ne_true, h, Option.bind_some]

/-- Scanners that are the same behind white space. -/
theorem Reads.of_advance {s s' : Scanner} (h : s.advance = s'.advance) (hle : s'.cursor.rest.length ≤ s.cursor.rest.length) :
    s.Reads s' := by
  intro fuel hfuel
  refine ⟨fuel, by omega, ?_⟩
  cases fuel with
  | zero => rfl
  | succ fuel => rw [tokens?, tokens?, h]

/-! ## Places between tokens -/

/-- A scanner of a text without braces and anchors. -/
def between (cursor : Cursor) (tokens : List Token) (indents : List Nat) (candidate : Option Candidate) (keys : Bool) : Scanner :=
  ⟨cursor, tokens, indents, candidate, [], keys, []⟩

/-- A scanner behind the indentation of a line. -/
def atLine (line : Nat) (cs : List Char) (tokens : List Token) (indents : List Nat) : Scanner :=
  between ⟨⟨line, indentation cs⟩, unindented cs⟩ tokens indents none true

variable {cursor : Cursor} {T : List Token} {I : List Nat} {candidate : Option Candidate} {keys : Bool}

theorem closeFrom_of_lt {column : Nat} (h : ∀ i ∈ I.head?, i < column) :
    (between cursor T I candidate keys).closeFrom column = between cursor T I candidate keys := by
  have hnone : I.takeWhile (column ≤ ·) = [] := by
    cases I with
    | nil => rfl
    | cons i I' => exact List.takeWhile_cons_of_neg (by simpa using h i rfl)
  change between _ (List.replicate (I.takeWhile _).length .blockEnd ++ T) (I.drop (I.takeWhile _).length) _ _ = _
  rw [hnone]
  rfl

theorem closeFrom_cons {column i : Nat} (h : column ≤ i) :
    (between cursor T (i :: I) candidate keys).closeFrom column =
      (between cursor (.blockEnd :: T) I candidate keys).closeFrom column := by
  have htake : (i :: I).takeWhile (column ≤ ·) = i :: I.takeWhile (column ≤ ·) :=
    List.takeWhile_cons_of_pos (by simpa using h)
  change between _ (List.replicate ((i :: I).takeWhile _).length .blockEnd ++ T)
    ((i :: I).drop ((i :: I).takeWhile _).length) _ _ = _
  rw [htake, List.length_cons, List.replicate_succ', List.append_assoc]
  rfl

/-- Behind white space the mappings are closed that are indented further than what comes next. -/
theorem advance_between {p : Position} {cs : List Char} {keys' : Bool} {behind : Cursor}
    (h : skipGap false keys false p cs = (keys', behind)) :
    (between ⟨p, cs⟩ T I candidate keys).advance = (between behind T I candidate keys').closeFrom (behind.column + 1) := by
  obtain rfl : (skipGap false keys false p cs).1 = keys' := by rw [h]
  obtain rfl : (skipGap false keys false p cs).2 = behind := by rw [h]
  rfl

theorem advance_of_le {p : Position} {cs : List Char} {keys' : Bool} {behind : Cursor}
    (h : skipGap false keys false p cs = (keys', behind)) (hi : ∀ i ∈ I.head?, i ≤ behind.column) :
    (between ⟨p, cs⟩ T I candidate keys).advance = between behind T I candidate keys' := by
  rw [advance_between h, closeFrom_of_lt fun i hmem => Nat.lt_succ_of_le (hi i hmem)]

/-! ## Tokens -/

theorem not_atMark {c mark : Char} (h : c ≠ mark) (s : Scanner) (cs : List Char) :
    ¬(s.cursor.column = 0 ∧ startsMark mark (c :: cs) = true) := by
  rintro ⟨-, hmark⟩
  simp [startsMark, h] at hmark

/-- A word may stand where a plain scalar starts. -/
theorem startsPlain_word {c : Char} (hc : isNameChar c = true) (hdash : c ≠ '-') (flow : Bool) (cs : List Char) :
    startsPlain flow (c :: cs) = true := by
  have hother : ∀ {marks : List Char}, (∀ d ∈ marks, isNameChar d = false) → marks.contains c = false :=
    fun hmarks => Bool.eq_false_iff.2 fun hmem => ne_of_isNameChar hc (hmarks c (List.contains_iff_mem.1 hmem)) rfl
  have hflow : isFlowMark c = false := hother (by simp [isNameChar])
  have hindicator : isIndicator c = false := hother (by simp [isNameChar])
  have hquestion := ne_of_isNameChar hc (d := '?') (by decide)
  have hcolon := ne_of_isNameChar hc (d := ':') (by decide)
  simp [startsPlain, hdash, hquestion, hcolon, isWhite_of_isNameChar hc, hflow, hindicator]

/-- A word is a plain scalar. -/
theorem token?_word {cs t : List Char} (h : IsWord cs) {s : Scanner} (hs : s.cursor.rest = cs ++ t) :
    s.token? = s.plainScalar? := by
  obtain ⟨c, cs', rfl, hc, hdash⟩ := h.exists_cons
  have hne : ∀ d, isNameChar d = false → c ≠ d := fun d hd => ne_of_isNameChar hc hd
  have hquestion := hne '?' (by decide)
  have hcolon := hne ':' (by decide)
  have hbar := hne '|' (by decide)
  have hangle := hne '>' (by decide)
  have hstarts := startsPlain_word hc hdash s.inFlow (cs' ++ t)
  unfold token?
  rw [hs, List.cons_append]
  dsimp only
  rw [if_neg fun h => hne '%' (by decide) h.2, if_neg (not_atMark hdash s _),
    if_neg (not_atMark (hne '.' (by decide)) s _)]
  split
  case h_9 => simp [hquestion, hcolon, hdash, hbar, hangle, hstarts]
  all_goals exact absurd rfl (hne _ (by decide))

/-- A colon in front of white space ends a key. -/
theorem token?_colon {cs : List Char} (h : atGap cs = true) {s : Scanner} (hs : s.cursor.rest = ':' :: cs) :
    s.token? = s.value? := by
  unfold token?
  rw [hs]
  dsimp only
  rw [if_neg fun h => absurd h.2 (by decide), if_neg (not_atMark (by decide) s cs), if_neg (not_atMark (by decide) s cs),
    if_neg fun h => absurd h.1 (by decide), if_pos ⟨rfl, .inr h⟩]
  rfl

/-- The tokens and the open mappings in front of a key in a column: where none is open there, one is opened. -/
inductive Opens (T : List Token) (n : Nat) : List Nat → List Token → List Nat → Prop where
  | same (I : List Nat) : Opens T n (n :: I) T (n :: I)
  | inner (I : List Nat) (h : ∀ i ∈ I.head?, i < n) : Opens T n I (.blockStart :: T) (n :: I)

theorem Opens.head_le {n : Nat} {T' : List Token} {I' : List Nat} (h : Opens T n I T' I') : ∀ i ∈ I.head?, i ≤ n := by
  intro i hi
  cases h with
  | same I => exact Nat.le_of_eq (Option.some.inj hi).symm
  | inner I h => exact Nat.le_of_lt (h i hi)

/-- A token is put behind those that stood in front of a candidate. -/
theorem insert_between (front : List Token) (token : Token) :
    (between cursor (front ++ T) I candidate keys).insert T.length token =
      between cursor (front ++ token :: T) I candidate keys := by
  have hsplit : (front ++ T).splitAt ((front ++ T).length - T.length) = (front, T) := by
    simp
  unfold insert
  dsimp only [between]
  rw [hsplit]

theorem Opens.openAt {n : Nat} {T' : List Token} {I' : List Nat} (h : Opens T n I T' I') (front : List Token) :
    (between cursor (front ++ T) I candidate keys).openAt n T.length = between cursor (front ++ T') I' candidate keys := by
  unfold Scanner.openAt
  cases h with
  | same I => rw [if_pos (by simp [level, between])]
  | inner I h =>
    have hlevel : ¬n < level (between cursor (front ++ T) I candidate keys) := by
      cases I with
      | nil => exact Nat.not_lt_zero n
      | cons i I => exact Nat.not_lt.2 (h i rfl)
    have hopen : ¬(inFlow (between cursor (front ++ T) I candidate keys) ||
        decide (n < level (between cursor (front ++ T) I candidate keys))) = true := by
      rw [decide_eq_false hlevel]
      exact Bool.false_ne_true
    rw [if_neg hopen, insert_between]
    rfl

/-- A colon turns a candidate into a key. -/
theorem value?_between {p : Position} {cs : List Char} {c : Candidate} (hreaches : c.reaches p = true)
    (hplace : c.place = T.length) {T' : List Token} {I' : List Nat} (h : Opens T c.position.column I T' I')
    (front : List Token) :
    (between ⟨p, ':' :: cs⟩ (front ++ T) I (some c) keys).value? =
      some (between ⟨p.after ':', cs⟩ (.value :: (front ++ .key :: T')) I' none false) := by
  have hcandidate : (some c).filter (·.reaches p) = some c := by rw [Option.filter_some, if_pos hreaches]
  have hopen : ((between ⟨p, ':' :: cs⟩ (front ++ T) I (some c) keys).insert T.length .key).openAt c.position.column T.length =
      between ⟨p, ':' :: cs⟩ (front ++ .key :: T') I' (some c) keys := by
    rw [insert_between, List.append_cons, h.openAt, ← List.append_cons]
  unfold value?
  dsimp only [between] at hcandidate hopen ⊢
  rw [hcandidate]
  dsimp only
  rw [hplace, hopen]
  rfl

/-- The candidate that a key in a column is. -/
def keyCandidate (T : List Token) (I : List Nat) (p : Position) : Candidate := ⟨T.length, p, I.head? == some p.column⟩

/-- The text of a key is read as that of a scalar that may turn out to be one. -/
theorem reads_keyText {k : List Char} (hk : IsWord k) {cs : List Char} (hcs : atGap cs = true) {p : Position}
    (hp : ∀ i ∈ I.head?, i ≤ p.column) :
    (between ⟨p, k ++ ':' :: cs⟩ T I none true).Reads
      (between ⟨p.behind k.length, ':' :: cs⟩ (.scalar .plain (String.ofList k) :: T) I (some (keyCandidate T I p)) false) := by
  obtain ⟨c, k', hcons, hc, hdash⟩ := hk.exists_cons
  have hgap : skipGap false true false p (k ++ ':' :: cs) = (true, ⟨p, k ++ ':' :: cs⟩) := by
    rw [hcons]
    exact skipGap_stop (.inl hc) true p _
  have hadvance : (between ⟨p, k ++ ':' :: cs⟩ T I none true).advance = between ⟨p, k ++ ':' :: cs⟩ T I none true :=
    advance_of_le hgap hp
  have hplain : ∀ indent, plain? false indent .empty p (k ++ ':' :: cs) = some (k, false, ⟨p.behind k.length, ':' :: cs⟩) := by
    intro indent
    have hhead : ∀ d ∈ k.head?, d ≠ '-' := by
      intro d hd
      rw [hcons] at hd
      obtain rfl := Option.some.inj hd
      exact hdash
    rw [plain?_word hk.chars (.inr hhead), plain?_colon hcs]
    simp
  refine Reads.of_token ?_ ?_ ?_
  · rw [hadvance, hcons]
    rfl
  · rw [hadvance, token?_word hk rfl]
    change (plain? false _ .empty p (k ++ ':' :: cs)).bind _ = _
    rw [hplain]
    rfl
  · change (':' :: cs).length < (k ++ ':' :: cs).length
    rw [hcons, List.cons_append, List.length_cons (a := c), List.length_append]
    omega

/-- A key and the colon behind it are read. -/
theorem reads_key {k : List Char} (hk : IsWord k) (hlength : k.length ≤ keyReach) {cs : List Char} (hcs : atGap cs = true)
    {n : Nat} {T' : List Token} {I' : List Nat} (h : Opens T n I T' I') (line : Nat) :
    (between ⟨⟨line, n⟩, k ++ ':' :: cs⟩ T I none true).Reads
      (between ⟨⟨line, n + k.length + 1⟩, cs⟩ (.value :: .scalar .plain (String.ofList k) :: .key :: T') I' none false) := by
  refine (reads_keyText hk hcs h.head_le).trans ?_
  have hadvance : ∀ T c, (between ⟨Position.behind ⟨line, n⟩ k.length, ':' :: cs⟩ T I c false).advance =
      between ⟨Position.behind ⟨line, n⟩ k.length, ':' :: cs⟩ T I c false := fun T c =>
    advance_of_le (skipGap_stop (.inr rfl) false _ cs) fun i hi => Nat.le_add_right_of_le (h.head_le i hi)
  have hreaches : (keyCandidate T I ⟨line, n⟩).reaches (Position.behind ⟨line, n⟩ k.length) = true := by
    simpa [Candidate.reaches, keyCandidate, Position.behind] using hlength
  refine Reads.of_token ?_ ?_ ?_
  · rw [hadvance]
    rfl
  · rw [hadvance, token?_colon hcs rfl]
    exact value?_between hreaches rfl h [.scalar .plain (String.ofList k)]
  · exact Nat.lt_succ_self _

/-- The text of a scalar behind a key is read, up to the next line. -/
theorem reads_scalar {w : List Char} (hw : IsWord w) {p : Position} {n : Nat} (hn : n ≤ p.column) {cs : List Char}
    (hindent : indentation cs ≤ n) (hcs : StartsWord cs) :
    (between ⟨p, ' ' :: w ++ '\n' :: cs⟩ T (n :: I) none false).Reads
      (atLine (p.line + 1) cs (.scalar .plain (String.ofList w) :: T) (n :: I)) := by
  obtain ⟨c, w', hcons, hc, hdash⟩ := hw.exists_cons
  have hgap : skipGap false false false p (' ' :: w ++ '\n' :: cs) = (false, ⟨p.behind 1, w ++ '\n' :: cs⟩) := by
    rw [hcons, skipGap_indentation, List.cons_append, indentation_cons_blank, unindented_cons_blank, List.cons_append,
      indentation_cons_of_ne (ne_of_isNameChar hc (by decide)), unindented_cons_of_ne (ne_of_isNameChar hc (by decide)),
      skipGap_stop (.inl hc)]
  have hadvance : (between ⟨p, ' ' :: w ++ '\n' :: cs⟩ T (n :: I) none false).advance =
      between ⟨p.behind 1, w ++ '\n' :: cs⟩ T (n :: I) none false := advance_of_le hgap fun i hi => by
    obtain rfl := Option.some.inj hi
    exact Nat.le_succ_of_le hn
  have hplain : plain? false (n + 1) .empty (p.behind 1) (w ++ '\n' :: cs) =
      some (w, true, ⟨⟨p.line + 1, indentation cs⟩, unindented cs⟩) := by
    rw [plain?_word hw.chars (.inl (Nat.succ_ne_zero _)), plain?_lineEnd (Nat.lt_succ_of_le hindent) hcs]
    simp [Position.behind]
  refine Reads.of_token ?_ ?_ ?_
  · rw [hadvance, hcons]
    rfl
  · rw [hadvance, token?_word hw rfl]
    change (plain? false (n + 1) .empty (p.behind 1) (w ++ '\n' :: cs)).bind _ = _
    rw [hplain]
    rfl
  · have hle := length_unindented_le cs
    change (unindented cs).length < (' ' :: w ++ '\n' :: cs).length
    rw [List.length_append, List.length_cons, List.length_cons]
    omega

/-- Behind a key the lines of a mapping may follow. -/
theorem reads_lineEnd (p : Position) (cs : List Char) :
    (between ⟨p, '\n' :: cs⟩ T I none false).Reads (atLine (p.line + 1) cs T I) := by
  have hline := skipGap_lineEnd p cs
  cases hgap : skipGap false true false ⟨p.line + 1, indentation cs⟩ (unindented cs)
  rw [hgap] at hline
  refine Reads.of_advance ?_ (Nat.le_succ_of_le (length_unindented_le cs))
  unfold atLine
  rw [advance_between hline, advance_between hgap]

/-- A mapping is closed in front of a line that is indented less. -/
theorem reads_blockEnd {cs : List Char} (hcs : StartsWord cs) {i : Nat} (hi : indentation cs < i) (line : Nat) :
    (atLine line cs T (i :: I)).Reads (atLine line cs (.blockEnd :: T) I) := by
  have hgap : skipGap false true false ⟨line, indentation cs⟩ (unindented cs) =
      (true, ⟨⟨line, indentation cs⟩, unindented cs⟩) := by
    unfold StartsWord at hcs
    cases h : unindented cs with
    | nil => rfl
    | cons c t =>
      rw [h] at hcs
      exact skipGap_stop (.inl (hcs c rfl)) true _ t
  refine Reads.of_advance ?_ (Nat.le_refl _)
  unfold atLine
  rw [advance_between hgap, advance_between hgap]
  exact closeFrom_cons hi

/-! ## Values -/

/-- The lines of a mapping start with a word, and so does what follows them. -/
theorem startsWord_entriesText {entries : List (String × Yaml)} (h : EntriesOfWords entries) {cs : List Char}
    (hcs : StartsWord cs) (n : Nat) : StartsWord (entriesText n entries ++ cs) := by
  match entries, h with
  | [], _ => rwa [entriesText]
  | (key, v) :: entries, h =>
    rw [EntriesOfWords] at h
    obtain ⟨c, key', hkey, hc, -⟩ := h.1.1.exists_cons
    rw [entriesText, hkey]
    intro d hd
    simp only [List.cons_append, List.append_assoc, unindented_replicate hc] at hd
    obtain rfl := Option.some.inj hd
    exact hc

theorem indentation_entriesText_le {entries : List (String × Yaml)} (h : EntriesOfWords entries) {n : Nat} {cs : List Char}
    (hcs : indentation cs ≤ n) : indentation (entriesText n entries ++ cs) ≤ n := by
  match entries, h with
  | [], _ => rwa [entriesText]
  | (key, v) :: entries, h =>
    rw [EntriesOfWords] at h
    obtain ⟨c, key', hkey, hc, -⟩ := h.1.1.exists_cons
    rw [entriesText, hkey]
    simp only [List.cons_append, List.append_assoc, indentation_replicate hc]
    exact Nat.le_refl n

/-- The key of a line is read. -/
theorem reads_lineKey {k : List Char} (hk : IsWord k) (hlength : k.length ≤ keyReach) {cs : List Char}
    (hcs : atGap cs = true) {n : Nat} {T' : List Token} {I' : List Nat} (h : Opens T n I T' I') (line : Nat) :
    (atLine line (List.replicate n ' ' ++ k ++ ':' :: cs) T I).Reads
      (between ⟨⟨line, n + k.length + 1⟩, cs⟩ (.value :: .scalar .plain (String.ofList k) :: .key :: T') I' none false) := by
  obtain ⟨c, k', hcons, hc, -⟩ := hk.exists_cons
  have hkey := reads_key hk hlength hcs h line
  unfold atLine
  rw [hcons] at hkey ⊢
  rw [List.append_assoc, List.cons_append, indentation_replicate hc, unindented_replicate hc]
  exact hkey

theorem atGap_valueText (v : Yaml) (n : Nat) (cs : List Char) : atGap (v.valueText n ++ cs) = true := by
  cases v with
  | scalar style tag text =>
    rw [valueText]
    rfl
  | mapping entries =>
    rw [valueText]
    rfl

theorem Opens.exists_eq {n : Nat} {T' : List Token} {I' : List Nat} (h : Opens T n I T' I') : ∃ J, I' = n :: J := by
  cases h with
  | same I => exact ⟨I, rfl⟩
  | inner I h => exact ⟨I, rfl⟩

mutual

/-- The value behind a key is read, up to the next line that belongs to the mapping around it. -/
theorem reads_value : ∀ {v : Yaml}, v.OfWords → ∀ {p : Position} {n : Nat}, n ≤ p.column → ∀ {cs : List Char},
    indentation cs ≤ n → StartsWord cs → ∀ (T : List Token) (I : List Nat),
    ∃ line, (between ⟨p, v.valueText (n + 2) ++ cs⟩ T (n :: I) none false).Reads
      (atLine line cs (v.tokens.reverse ++ T) (n :: I))
  | .scalar style tag text, h, p, n, hn, cs, hindent, hcs, T, I => by
    rw [OfWords] at h
    obtain ⟨rfl, rfl, hword⟩ := h
    have hreads := reads_scalar (T := T) (I := I) hword hn hindent hcs
    rw [String.ofList_toList] at hreads
    refine ⟨p.line + 1, ?_⟩
    rw [valueText, Yaml.tokens]
    simpa using hreads
  | .mapping entries, h, p, n, hn, cs, hindent, hcs, T, I => by
    rw [OfWords] at h
    have hopen : Opens T (n + 2) (n :: I) (.blockStart :: T) ((n + 2) :: n :: I) := .inner (n :: I) fun i hi => by
      obtain rfl := Option.some.inj hi
      exact Nat.lt_add_of_pos_right Nat.zero_lt_two
    obtain ⟨line, hentries⟩ := reads_entries h.2 hopen (.inl h.1) (Nat.le_add_right_of_le hindent) hcs (p.line + 1)
    have hend := reads_blockEnd (T := (entryTokens entries).reverse ++ .blockStart :: T) (I := n :: I) hcs
      (Nat.lt_add_right 1 (Nat.lt_succ_of_le hindent)) line
    have hreads := ((reads_lineEnd p (entriesText (n + 2) entries ++ cs)).trans hentries).trans hend
    refine ⟨line, ?_⟩
    rw [valueText, Yaml.tokens]
    simpa using hreads

/-- The lines of a mapping are read. -/
theorem reads_entries : ∀ {entries : List (String × Yaml)}, EntriesOfWords entries → ∀ {n : Nat} {T T' : List Token}
    {I I' : List Nat}, Opens T n I T' I' → (entries ≠ [] ∨ I = I') → ∀ {cs : List Char}, indentation cs ≤ n → StartsWord cs →
    ∀ line, ∃ line', (atLine line (entriesText n entries ++ cs) T I).Reads
      (atLine line' cs ((entryTokens entries).reverse ++ T') I')
  | [], h, n, T, T', I, I', hopen, hne, cs, hindent, hcs, line => by
    have hI : I = I' := hne.resolve_left (fun hne => hne rfl)
    cases hopen with
    | same J =>
      refine ⟨line, ?_⟩
      rw [entriesText, entryTokens]
      exact Reads.refl _
    | inner J h => exact absurd hI (List.cons_ne_self _ _).symm
  | (key, v) :: entries, h, n, T, T', I, I', hopen, hne, cs, hindent, hcs, line => by
    rw [EntriesOfWords] at h
    obtain ⟨⟨hkey, hlength⟩, hv, hentries⟩ := h
    have hreadKey := reads_lineKey hkey hlength (atGap_valueText v (n + 2) (entriesText n entries ++ cs)) hopen line
    obtain ⟨J, rfl⟩ := hopen.exists_eq
    obtain ⟨lineV, hreadValue⟩ := reads_value hv (p := ⟨line, n + key.toList.length + 1⟩)
      (Nat.le_add_right_of_le (Nat.le_add_right n _)) (indentation_entriesText_le hentries hindent)
      (startsWord_entriesText hentries hcs n) (.value :: .scalar .plain (String.ofList key.toList) :: .key :: T') J
    obtain ⟨line', hreadEntries⟩ := reads_entries hentries (.same J) (.inr rfl) hindent hcs lineV
    refine ⟨line', ?_⟩
    have hreads := (hreadKey.trans hreadValue).trans hreadEntries
    rw [entriesText, entryTokens]
    simpa using hreads

end

theorem reads_start (cs : List Char) : (start cs).Reads (atLine 0 cs [] []) := by
  have hgap := skipGap_indentation true ⟨0, 0⟩ cs
  cases hline : skipGap false true false ⟨0, indentation cs⟩ (unindented cs)
  rw [Position.behind, Nat.zero_add, hline] at hgap
  refine Reads.of_advance ?_ (length_unindented_le cs)
  unfold atLine
  rw [advance_between hline]
  exact advance_between hgap

/-- At the end of a text the outermost mapping is closed. -/
theorem tokens?_end (fuel line : Nat) (T : List Token) :
    tokens? (fuel + 1) (atLine line [] T [0]) = some (.blockEnd :: T).reverse := rfl

end Scanner

/-- The text of a mapping of words is cut into its tokens. -/
theorem tokens?_entriesText {entries : List (String × Yaml)} (h : (mapping entries).OfWords) :
    tokens? (entriesText 0 entries) = some (mapping entries).tokens := by
  rw [OfWords] at h
  have hopen : Scanner.Opens [] 0 [] [.blockStart] [0] := .inner [] fun i hi => by cases hi
  have hnothing : StartsWord [] := fun c hc => by cases hc
  obtain ⟨line, hentries⟩ := Scanner.reads_entries h.2 hopen (.inl h.1) (Nat.le_refl (indentation [])) hnothing 0
  rw [List.append_nil] at hentries
  have hreads := (Scanner.reads_start (entriesText 0 entries)).trans hentries
  obtain ⟨fuel, hfuel, heq⟩ := hreads ((entriesText 0 entries).length + 1) (Nat.lt_succ_self _)
  obtain ⟨fuel, rfl⟩ := Nat.exists_eq_add_of_lt hfuel
  unfold tokens?
  rw [heq, Scanner.tokens?_end, tokens]
  simp

end FlowLint.Yaml
