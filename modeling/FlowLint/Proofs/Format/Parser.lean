import FlowLint.Proofs.Format.Grammar

/-!
# Format strings as sequences of directives

A text splits in exactly one way into directives with text free of percent signs between them and a rest that is empty or starts
with a percent sign that starts no directive (`exists_splits`, `Splits.unique`). Reading a format string yields the directives
of this split with their offsets and parts, and an error that tells why the rest is no directive (`parse_splits`): a rest has one
such error (`Ending.unique`).
-/

namespace FlowLint.Format

/-- A directive in a text: the text in front of it that is passed over, its stem and its conversion. -/
structure Piece where
  gap : List Char
  stem : Stem
  conversion : Conversion
deriving DecidableEq, Repr

namespace Piece

/-- The directive as it is written. -/
def text (p : Piece) : List Char := '%' :: (p.stem.spelling ++ [p.conversion.letter])

/-- The directive at an offset, with the values of its parts. -/
def directive (p : Piece) (offset : Nat) : Directive where
  offset := offset
  text := String.ofList p.text
  flags := flagChars.filter p.stem.flags.contains
  width := p.stem.width.map Numeral.count
  precision := p.stem.precision.map fun n => n.elim (.fixed 0) Numeral.count
  length := p.stem.length
  conversion := p.conversion

/-- The directive with leading zeros as flags. -/
def canonical (p : Piece) : Piece := { p with stem := p.stem.canonical }

theorem text_canonical (p : Piece) : p.canonical.text = p.text := by
  simp only [text, canonical, Stem.spelling_canonical]

end Piece

/-- The text of a sequence of directives and of the gaps in front of them. -/
def spelled (pieces : List Piece) : List Char := pieces.flatMap fun p => p.gap ++ p.text

/-- No directive starts at the rest of a text, which starts with a percent sign unless it is empty. -/
structure Stuck (rest : List Char) : Prop where
  percent : ∀ c ∈ rest.head?, c = '%'
  none : ∀ d, d <+: rest → ¬IsDirective d

/-- A text is cut into directives with gaps in front of them, a last gap and a rest at which no directive starts. -/
structure Splits (cs : List Char) (pieces : List Piece) (gap rest : List Char) : Prop where
  text : cs = spelled pieces ++ (gap ++ rest)
  gaps : ∀ p ∈ pieces, '%' ∉ p.gap
  stems : ∀ p ∈ pieces, p.stem.Written
  gap : '%' ∉ gap
  rest : Stuck rest

/-- The error at an offset for the rest of a text. It has run out behind a percent sign and a stem, or behind the longest stem
stands a character that is no conversion. -/
inductive Ending (offset : Nat) : List Char → Option FormatError → Prop
  | finished : Ending offset [] none
  | runsOut (m : Stem) : m.Written → Ending offset ('%' :: m.spelling) (some (.trailingPercent offset))
  | unknown (m : Stem) (c : Char) (more : List Char) : m.Written →
      (∀ m' : Stem, m'.Written → m'.spelling <+: m.spelling ++ c :: more → m'.spelling.length ≤ m.spelling.length) →
      (∀ k : Conversion, k.letter ≠ c) →
      Ending offset ('%' :: (m.spelling ++ c :: more))
        (some (.unknownConversion offset c (String.ofList ('%' :: (m.spelling ++ [c])))))

/-- A rest has one error at most. -/
theorem Ending.unique {offset : Nat} {rest : List Char} {e e' : Option FormatError} (h : Ending offset rest e)
    (h' : Ending offset rest e') : e = e' := by
  generalize hr : rest = r at h'
  have hlonger : ∀ {m m' : Stem} {c : Char} {more : List Char}, m'.Written →
      (∀ m' : Stem, m'.Written → m'.spelling <+: m.spelling ++ c :: more → m'.spelling.length ≤ m.spelling.length) →
      m'.spelling ≠ m.spelling ++ c :: more := by
    intro m m' c more hm' hlongest heq
    have hle := hlongest m' hm' (heq ▸ List.prefix_refl _)
    rw [heq, List.length_append, List.length_cons] at hle
    omega
  cases h with
  | finished =>
    cases h' with
    | finished => rfl
    | runsOut | unknown => cases hr
  | runsOut m hm =>
    cases h' with
    | finished => cases hr
    | runsOut => rfl
    | unknown m' c more _ hlongest => exact absurd (List.cons.inj hr).2 (hlonger hm hlongest)
  | unknown m c more hm hlongest =>
    cases h' with
    | finished => cases hr
    | runsOut m' hm' => exact absurd (List.cons.inj hr).2.symm (hlonger hm' hlongest)
    | unknown m' c' more' hm' hlongest' =>
      have heq := (List.cons.inj hr).2
      have hle := hlongest m' hm' (heq ▸ List.prefix_append _ _)
      have hle' := hlongest' m hm (heq ▸ List.prefix_append _ _)
      obtain ⟨hm, hmore⟩ := List.append_inj heq (by omega)
      rw [hm, (List.cons.inj hmore).1]

/-! ## Where a directive starts -/

theorem Conversion.letter_injective {k k' : Conversion} (h : k.letter = k'.letter) : k = k' := by
  have hk := Conversion.ofLetter?_letter k
  rw [h, Conversion.ofLetter?_letter] at hk
  exact (Option.some.inj hk).symm

theorem ofLetter?_eq_none_iff {c : Char} : Conversion.ofLetter? c = none ↔ ∀ k : Conversion, k.letter ≠ c := by
  constructor
  · rintro h k rfl
    rw [Conversion.ofLetter?_letter] at h
    cases h
  · intro h
    rw [Option.eq_none_iff_forall_ne_some]
    intro k hk
    exact h k (Conversion.letter_of_ofLetter? hk)

/-- A directive starts at a percent sign exactly if a conversion stands behind the stem that is scanned. -/
theorem exists_isDirective_iff {cs : List Char} :
    (∃ d, d <+: '%' :: cs ∧ IsDirective d) ↔ ∃ k : Conversion, (scanStem cs).2.head? = some k.letter := by
  constructor
  · rintro ⟨_, ⟨t, ht⟩, m, k, hm, rfl⟩
    refine ⟨k, ?_⟩
    have hcs : cs = m.canonical.spelling ++ k.letter :: t := by
      rw [m.spelling_canonical]
      simpa using (List.cons.inj ht).2.symm
    rw [hcs, scanStem_spelling hm.canonical]
    rfl
  · rintro ⟨k, hk⟩
    obtain ⟨more, hmore⟩ := List.head?_eq_some_iff.1 hk
    obtain ⟨hcs, hm⟩ := scanStem_sound cs
    refine ⟨'%' :: ((scanStem cs).1.spelling ++ [k.letter]), ⟨more, ?_⟩, _, k, hm.toWritten, rfl⟩
    conv_rhs => rw [hcs, hmore]
    simp

/-! ## Reading -/

theorem parseAt_gap {gap : List Char} (h : '%' ∉ gap) (offset : Nat) (rest : List Char) :
    parseAt offset (gap ++ rest) = parseAt (offset + byteSize gap) rest := by
  induction gap generalizing offset with
  | nil => rfl
  | cons c gap ih =>
    have hc : c ≠ '%' := fun heq => h (heq ▸ List.mem_cons_self)
    rw [List.cons_append, parseAt, if_neg hc, ih fun hmem => h (List.mem_cons_of_mem c hmem)]
    simp only [byteSize, List.foldr_cons, Nat.add_assoc]

theorem textBefore_append (text rest : List Char) : textBefore (text ++ rest) rest = text := by
  simp [textBefore]

/-- Behind a percent sign the stem is read that is scanned, and then a conversion. -/
theorem parseAt_percent (offset : Nat) (cs : List Char) :
    parseAt offset ('%' :: cs) =
      match (scanStem cs).2 with
      | [] => ⟨[], some (.trailingPercent offset)⟩
      | c :: more =>
        let text := '%' :: ((scanStem cs).1.spelling ++ [c])
        match Conversion.ofLetter? c with
        | none => ⟨[], some (.unknownConversion offset c (String.ofList text))⟩
        | some conversion =>
          let following := parseAt (offset + byteSize text) more
          { following with
            directives := Piece.directive ⟨[], (scanStem cs).1, conversion⟩ offset :: following.directives } := by
  have hcs := (scanStem_sound cs).1
  have htext : ∀ c more, (scanStem cs).2 = c :: more → textBefore cs more = (scanStem cs).1.spelling ++ [c] := by
    intro c more hmore
    rw [hmore, ← List.singleton_append, ← List.append_assoc] at hcs
    conv_lhs => rw [hcs]
    exact textBefore_append _ _
  rw [parseAt, if_pos rfl]
  dsimp only
  rw [takeModifiers_eq]
  split
  · rename_i hrest
    rw [show (scanStem cs).2 = [] from hrest]
  · rename_i c more hrest
    rw [show (scanStem cs).2 = c :: more from hrest]
    dsimp only
    rw [htext c more hrest]
    unfold Piece.directive Piece.text
    cases hk : Conversion.ofLetter? c with
    | none => rfl
    | some k =>
      rw [← Conversion.letter_of_ofLetter? hk]
      rfl

theorem Piece.text_append (p : Piece) (rest : List Char) :
    p.text ++ rest = '%' :: (p.stem.spelling ++ p.conversion.letter :: rest) := by
  simp [text]

/-- A directive in front of a text is read, and then the text. -/
theorem parseAt_text {p : Piece} (hp : p.stem.Canonical) (offset : Nat) (rest : List Char) :
    parseAt offset (p.text ++ rest) =
      ⟨p.directive offset :: (parseAt (offset + byteSize p.text) rest).directives,
        (parseAt (offset + byteSize p.text) rest).error⟩ := by
  rw [p.text_append, parseAt_percent, scanStem_spelling hp]
  dsimp only
  rw [Conversion.ofLetter?_letter]
  rfl

/-- Reading stops at once where no directive starts. -/
theorem parseAt_stuck {rest : List Char} (h : Stuck rest) (offset : Nat) :
    (parseAt offset rest).directives = [] ∧ Ending offset rest (parseAt offset rest).error := by
  cases rest with
  | nil =>
    rw [parseAt]
    exact ⟨rfl, .finished⟩
  | cons c cs =>
    obtain rfl := h.percent c rfl
    obtain ⟨hcs, hm⟩ := scanStem_sound cs
    have hnone : ¬∃ k : Conversion, (scanStem cs).2.head? = some k.letter := by
      intro hk
      obtain ⟨d, hpre, hd⟩ := exists_isDirective_iff.2 hk
      exact h.none d hpre hd
    have hlongest : ∀ m' : Stem, m'.Written → m'.spelling <+: cs → m'.spelling.length ≤ (scanStem cs).1.spelling.length :=
      fun m' hm' hpre => longest_scanStem hm' hpre
    rw [parseAt_percent]
    generalize scanStem cs = scanned at hcs hm hnone hlongest
    obtain ⟨m, more⟩ := scanned
    subst hcs
    cases more with
    | nil =>
      refine ⟨rfl, ?_⟩
      rw [List.append_nil]
      exact .runsOut m hm.toWritten
    | cons c more =>
      have hc : ∀ k : Conversion, k.letter ≠ c := fun k hk => hnone ⟨k, by rw [hk]; rfl⟩
      dsimp only
      rw [ofLetter?_eq_none_iff.2 hc]
      exact ⟨rfl, .unknown m c more hm.toWritten hlongest hc⟩

theorem byteSize_append (cs ds : List Char) : byteSize (cs ++ ds) = byteSize cs + byteSize ds := by
  induction cs with
  | nil => simp [byteSize]
  | cons c cs ih =>
    simp only [byteSize, List.cons_append, List.foldr_cons] at ih ⊢
    omega

theorem byteSize_eq (cs : List Char) : byteSize cs = (String.ofList cs).utf8ByteSize := by
  induction cs with
  | nil => rfl
  | cons c cs ih =>
    simp only [byteSize, List.foldr_cons] at ih ⊢
    simp [ih]

theorem spelled_nil : spelled [] = [] := rfl

theorem spelled_cons (p : Piece) (pieces : List Piece) : spelled (p :: pieces) = p.gap ++ (p.text ++ spelled pieces) := by
  simp [spelled]

/-- Reading a text that is split yields the directives of the split, and stops at its rest. -/
theorem Splits.parseAt_eq {cs : List Char} {pieces : List Piece} {gap rest : List Char} (h : Splits cs pieces gap rest)
    (hcanonical : ∀ p ∈ pieces, p.stem.Canonical) (offset : Nat) :
    (∀ k, (parseAt offset cs).directives[k]? =
      pieces[k]?.map fun p : Piece => p.directive (offset + byteSize (spelled (pieces.take k) ++ p.gap))) ∧
      Ending (offset + byteSize (spelled pieces ++ gap)) rest (parseAt offset cs).error := by
  obtain ⟨rfl, hgaps, -, hgap, hrest⟩ := h
  induction pieces generalizing offset with
  | nil =>
    obtain ⟨hdirectives, hending⟩ := parseAt_stuck hrest (offset + byteSize gap)
    rw [spelled_nil, List.nil_append, List.nil_append, parseAt_gap hgap]
    exact ⟨fun k => by simp [hdirectives], hending⟩
  | cons p pieces ih =>
    rw [List.forall_mem_cons] at hcanonical hgaps
    obtain ⟨hdirectives, hending⟩ := ih hcanonical.2 (offset + byteSize p.gap + byteSize p.text) hgaps.2
    rw [spelled_cons, List.append_assoc, List.append_assoc, parseAt_gap hgaps.1, parseAt_text hcanonical.1]
    constructor
    · intro k
      cases k with
      | zero => simp [spelled]
      | succ k =>
        rw [List.getElem?_cons_succ, List.getElem?_cons_succ, hdirectives]
        simp only [List.take_succ_cons, spelled_cons, byteSize_append, Nat.add_assoc]
    · simpa only [spelled_cons, byteSize_append, Nat.add_assoc, List.append_assoc] using hending

/-! ## There is exactly one split -/

/-- Every text is split, with leading zeros as flags. -/
theorem exists_splits (cs : List Char) :
    ∃ pieces gap rest, Splits cs pieces gap rest ∧ ∀ p ∈ pieces, p.stem.Canonical := by
  induction hn : cs.length using Nat.strong_induction_on generalizing cs with
  | _ n ih =>
  have hcs := List.takeWhile_append_dropWhile (p := (· != '%')) (l := cs)
  have hgap : '%' ∉ cs.takeWhile (· != '%') := fun hmem => by simpa using List.mem_takeWhile_imp hmem
  have hhead := List.head?_dropWhile_not (· != '%') cs
  generalize cs.takeWhile (· != '%') = gap at hcs hgap
  generalize cs.dropWhile (· != '%') = rest at hcs hhead
  have hpercent : ∀ c ∈ rest.head?, c = '%' := by
    intro c hc
    rw [hc] at hhead
    simpa using hhead
  by_cases hd : ∃ d, d <+: rest ∧ IsDirective d
  · obtain ⟨_, ⟨t, rfl⟩, m, k, hm, rfl⟩ := hd
    have hlen := congrArg List.length hcs
    simp only [List.length_append, List.length_cons] at hlen
    obtain ⟨pieces, gap', rest', hsplits, hcanonical⟩ := ih t.length (by omega) t rfl
    refine ⟨⟨gap, m.canonical, k⟩ :: pieces, gap', rest', ⟨?_, ?_, ?_, hsplits.gap, hsplits.rest⟩, ?_⟩
    · rw [← hcs, spelled_cons, Piece.text, m.spelling_canonical]
      conv_lhs => rw [hsplits.text]
      simp
    · simpa using ⟨hgap, hsplits.gaps⟩
    · simpa using ⟨hm.canonical.toWritten, hsplits.stems⟩
    · simpa using ⟨hm.canonical, hcanonical⟩
  · exact ⟨[], gap, rest, ⟨by simp [spelled, hcs], by simp, by simp, hgap, hpercent, fun d hpre h => hd ⟨d, hpre, h⟩⟩, by simp⟩

/-- A gap ends at the first percent sign. -/
theorem gap_append_inj {gap gap' rest rest' : List Char} (hgap : '%' ∉ gap) (hgap' : '%' ∉ gap')
    (hrest : ∀ c ∈ rest.head?, c = '%') (hrest' : ∀ c ∈ rest'.head?, c = '%') (h : gap ++ rest = gap' ++ rest') :
    gap = gap' ∧ rest = rest' := by
  have hspan : ∀ g r : List Char, '%' ∉ g → (∀ c ∈ r.head?, c = '%') → (g ++ r).takeWhile (· != '%') = g := by
    intro g r hg hr
    have hall : ∀ c ∈ g, (c != '%') = true := fun c hc => by
      rw [bne_iff_ne]
      rintro rfl
      exact hg hc
    rw [List.takeWhile_append_of_pos hall]
    cases r with
    | nil => simp
    | cons c r => simp [hr c rfl]
  have heq : gap = gap' := by
    rw [← hspan gap rest hgap hrest, h, hspan gap' rest' hgap' hrest']
  subst heq
  exact ⟨rfl, List.append_cancel_left h⟩

theorem Piece.head?_text_append (p : Piece) (rest : List Char) : ∀ c ∈ (p.text ++ rest).head?, c = '%' := by
  rintro _ ⟨⟩
  rfl

/-- The gap in front of a rest at which no directive starts is not one in front of a directive. -/
theorem Stuck.ne_text {gap rest more : List Char} {p : Piece} (h : Stuck rest) (hgap : '%' ∉ gap) (hpgap : '%' ∉ p.gap)
    (hp : p.stem.Written) : gap ++ rest ≠ p.gap ++ (p.text ++ more) := by
  intro heq
  obtain ⟨-, hrest⟩ := gap_append_inj hgap hpgap h.percent (p.head?_text_append more) heq
  exact h.none p.text (hrest ▸ List.prefix_append p.text more) ⟨p.stem, p.conversion, hp, rfl⟩

/-- There is at most one split with leading zeros as flags. -/
theorem Splits.unique {cs : List Char} {pieces pieces' : List Piece} {gap gap' rest rest' : List Char}
    (h : Splits cs pieces gap rest) (hcanonical : ∀ p ∈ pieces, p.stem.Canonical)
    (h' : Splits cs pieces' gap' rest') (hcanonical' : ∀ p ∈ pieces', p.stem.Canonical) :
    pieces = pieces' ∧ gap = gap' ∧ rest = rest' := by
  obtain ⟨htext, hgaps, hstems, hgap, hrest⟩ := h
  obtain ⟨htext', hgaps', hstems', hgap', hrest'⟩ := h'
  rw [htext] at htext'
  clear htext
  induction pieces generalizing pieces' with
  | nil =>
    cases pieces' with
    | nil => exact ⟨rfl, gap_append_inj hgap hgap' hrest.percent hrest'.percent htext'⟩
    | cons p pieces' =>
      rw [List.forall_mem_cons] at hgaps' hstems'
      rw [spelled_cons, List.append_assoc, List.append_assoc] at htext'
      exact absurd htext' (hrest.ne_text hgap hgaps'.1 hstems'.1)
  | cons p pieces ih =>
    rw [List.forall_mem_cons] at hgaps hstems hcanonical
    rw [spelled_cons, List.append_assoc, List.append_assoc] at htext'
    cases pieces' with
    | nil => exact absurd htext'.symm (hrest'.ne_text hgap' hgaps.1 hstems.1)
    | cons p' pieces' =>
      rw [List.forall_mem_cons] at hgaps' hstems' hcanonical'
      rw [spelled_cons, List.append_assoc, List.append_assoc] at htext'
      obtain ⟨hpgap, hbehind⟩ :=
        gap_append_inj hgaps.1 hgaps'.1 (p.head?_text_append _) (p'.head?_text_append _) htext'
      rw [p.text_append, p'.text_append, List.cons.injEq] at hbehind
      -- what is scanned behind the percent sign is the stem of either split
      have hscan := scanStem_spelling hcanonical.1 p.conversion (spelled pieces ++ (gap ++ rest))
      rw [hbehind.2, scanStem_spelling hcanonical'.1, Prod.mk.injEq, List.cons.injEq] at hscan
      obtain ⟨hstem, hconversion, hmore⟩ := hscan
      obtain ⟨rfl, hends⟩ := ih hcanonical.2 hcanonical'.2 hgaps.2 hstems.2 hmore.symm hgaps'.2 hstems'.2
      have hp : p = p' := by
        obtain ⟨g, m, k⟩ := p
        obtain ⟨g', m', k'⟩ := p'
        simp only [Piece.mk.injEq]
        exact ⟨hpgap, hstem.symm, (Conversion.letter_injective hconversion).symm⟩
      exact ⟨congrArg (· :: pieces) hp, hends⟩

/-- A split is one as well with leading zeros as flags. -/
theorem Splits.canonical {cs : List Char} {pieces : List Piece} {gap rest : List Char} (h : Splits cs pieces gap rest) :
    Splits cs (pieces.map Piece.canonical) gap rest ∧ ∀ p ∈ pieces.map Piece.canonical, p.stem.Canonical := by
  have hspelled : spelled (pieces.map Piece.canonical) = spelled pieces := by
    simp only [spelled, List.flatMap_map, Piece.text_canonical]
    rfl
  have hstems : ∀ p ∈ pieces.map Piece.canonical, p.stem.Canonical :=
    List.forall_mem_map.2 fun p hp => (h.stems p hp).canonical
  exact ⟨⟨hspelled ▸ h.text, List.forall_mem_map.2 h.gaps, fun p hp => (hstems p hp).toWritten, h.gap, h.rest⟩, hstems⟩

/-- A text has exactly one split into directives of the grammar, up to zeros that may be flags or digits. Reading it yields
the directives of the split in which leading zeros are flags, each with the number of bytes in front of it and the values of its
parts. The error is the only one of the rest of the split, with the number of bytes in front of the rest. -/
theorem parse_splits (s : String) :
    ∃ pieces gap rest, Splits s.toList pieces gap rest ∧ (∀ p ∈ pieces, p.stem.Canonical) ∧
      (∀ k, (parse s).directives[k]? = pieces[k]?.map fun p : Piece =>
        p.directive (String.ofList (spelled (pieces.take k) ++ p.gap)).utf8ByteSize) ∧
      (∀ e, Ending (String.ofList (spelled pieces ++ gap)).utf8ByteSize rest e ↔ (parse s).error = e) ∧
      ∀ pieces' gap' rest', Splits s.toList pieces' gap' rest' →
        pieces'.map Piece.gap = pieces.map Piece.gap ∧ pieces'.map Piece.text = pieces.map Piece.text ∧
        gap' = gap ∧ rest' = rest ∧ ((∀ p ∈ pieces', p.stem.Canonical) → pieces' = pieces) := by
  obtain ⟨pieces, gap, rest, hsplits, hcanonical⟩ := exists_splits s.toList
  obtain ⟨hdirectives, hending⟩ := hsplits.parseAt_eq hcanonical 0
  have herror : Ending (String.ofList (spelled pieces ++ gap)).utf8ByteSize rest (parse s).error := by
    simpa only [parse, byteSize_eq, Nat.zero_add] using hending
  refine ⟨pieces, gap, rest, hsplits, hcanonical, fun k => ?_, fun e => ⟨fun h => herror.unique h, ?_⟩,
    fun pieces' gap' rest' h' => ?_⟩
  · simpa only [parse, byteSize_eq, Nat.zero_add] using hdirectives k
  · rintro rfl
    exact herror
  · obtain ⟨hpieces, hgap, hrest⟩ := h'.canonical.1.unique h'.canonical.2 hsplits hcanonical
    refine ⟨?_, ?_, hgap, hrest, fun hc => (h'.unique hc hsplits hcanonical).1⟩
    · simp [← hpieces, Piece.canonical]
    · simp [← hpieces, Piece.text_canonical]

end FlowLint.Format
