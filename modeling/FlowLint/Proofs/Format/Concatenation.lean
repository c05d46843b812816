import FlowLint.Proofs.Format.Parser

/-!
# Format strings one behind the other

The scan of a directive ends at its conversion and looks at nothing behind it. So a format string that is read to its end is read
the same in front of any text, and the text is read as it is alone, only further on (`parseAt_append`). Where reading starts
changes nothing but offsets (`parseAt_shifted`). The directives of any format string, written one behind the other without what
stands between them, are read back (`parse_concatenated`).
-/

namespace FlowLint.Format

/-- The directive a number of bytes further on. -/
def Directive.shifted (n : Nat) (d : Directive) : Directive := { d with offset := d.offset + n }

/-- The directive as it is wherever it stands. -/
def Directive.unplaced (d : Directive) : Directive := { d with offset := 0 }

/-- The error a number of bytes further on. -/
def FormatError.shifted (n : Nat) : FormatError → FormatError
  | .trailingPercent offset => .trailingPercent (offset + n)
  | .unknownConversion offset c text => .unknownConversion (offset + n) c text

namespace FormatString

/-- What is read a number of bytes further on. -/
def shifted (n : Nat) (f : FormatString) : FormatString := ⟨f.directives.map (.shifted n), f.error.map (.shifted n)⟩

/-- What is read of a text behind directives. -/
def behind (ds : List Directive) (f : FormatString) : FormatString := ⟨ds ++ f.directives, f.error⟩

/-- The directives as they are written, one behind the other. -/
def packed (f : FormatString) : String := String.join (f.directives.map Directive.text)

end FormatString

/-! ## Where reading starts -/

/-- A text that starts further on is read the same, further on. -/
theorem parseAt_shifted (offset n : Nat) (cs : List Char) : parseAt (offset + n) cs = (parseAt offset cs).shifted n := by
  induction hlength : cs.length using Nat.strong_induction_on generalizing offset cs with
  | _ length ih =>
  cases cs with
  | nil => simp [parseAt, FormatString.shifted]
  | cons c cs =>
    by_cases hc : c = '%'
    · subst hc
      rw [parseAt_percent, parseAt_percent]
      have hscan := congrArg List.length (scanStem_sound cs).1
      generalize scanStem cs = scanned at hscan ⊢
      obtain ⟨m, rest⟩ := scanned
      cases rest with
      | nil => rfl
      | cons k more =>
        dsimp only
        cases Conversion.ofLetter? k with
        | none => rfl
        | some conversion =>
          simp only [List.length_append, List.length_cons] at hscan hlength
          dsimp only
          rw [Nat.add_right_comm, ih more.length (by omega) _ more rfl]
          rfl
    · rw [parseAt, if_neg hc, parseAt, if_neg hc, Nat.add_right_comm]
      exact ih cs.length (by simp [← hlength]) _ cs rfl

/-! ## Directives in front of a text -/

/-- The directives of a sequence of pieces that starts at an offset. -/
def directivesAt (offset : Nat) : List Piece → List Directive
  | [] => []
  | p :: pieces => p.directive (offset + byteSize p.gap) :: directivesAt (offset + byteSize p.gap + byteSize p.text) pieces

/-- Directives in front of a text are read, and then the text. -/
theorem parseAt_spelled {pieces : List Piece} (hgaps : ∀ p ∈ pieces, '%' ∉ p.gap)
    (hcanonical : ∀ p ∈ pieces, p.stem.Canonical) (offset : Nat) (cs : List Char) :
    parseAt offset (spelled pieces ++ cs) =
      (parseAt (offset + byteSize (spelled pieces)) cs).behind (directivesAt offset pieces) := by
  induction pieces generalizing offset with
  | nil => rfl
  | cons p pieces ih =>
    rw [List.forall_mem_cons] at hgaps hcanonical
    rw [spelled_cons, List.append_assoc, List.append_assoc, parseAt_gap hgaps.1, parseAt_text hcanonical.1,
      ih hgaps.2 hcanonical.2, directivesAt]
    simp only [byteSize_append, Nat.add_assoc, FormatString.behind, List.cons_append]

/-- The pieces of a text that is read to its end fill it up to the last gap. -/
theorem exists_pieces_of_error_eq_none {cs : List Char} {offset : Nat} (h : (parseAt offset cs).error = none) :
    ∃ pieces gap, cs = spelled pieces ++ gap ∧ (∀ p ∈ pieces, '%' ∉ p.gap) ∧ (∀ p ∈ pieces, p.stem.Canonical) ∧
      '%' ∉ gap := by
  obtain ⟨pieces, gap, rest, hsplits, hcanonical⟩ := exists_splits cs
  have hending := (hsplits.parseAt_eq hcanonical offset).2
  rw [h] at hending
  have htext := hsplits.text
  cases hending
  rw [List.append_nil] at htext
  exact ⟨pieces, gap, htext, hsplits.gaps, hcanonical, hsplits.gap⟩

/-- A text that is read to its end is read the same in front of another, and the other one as it is alone. -/
theorem parseAt_append {offset : Nat} {cs : List Char} (h : (parseAt offset cs).error = none) (ds : List Char) :
    parseAt offset (cs ++ ds) = (parseAt (offset + byteSize cs) ds).behind (parseAt offset cs).directives := by
  obtain ⟨pieces, gap, rfl, hgaps, hcanonical, hgap⟩ := exists_pieces_of_error_eq_none h
  have hread : parseAt offset (spelled pieces ++ gap) = ⟨directivesAt offset pieces, none⟩ := by
    have hlast := parseAt_gap hgap (offset + byteSize (spelled pieces)) []
    rw [List.append_nil] at hlast
    rw [parseAt_spelled hgaps hcanonical, hlast]
    simp [parseAt, FormatString.behind]
  rw [hread, List.append_assoc, parseAt_spelled hgaps hcanonical, parseAt_gap hgap, byteSize_append, Nat.add_assoc]

theorem parse_append {a : String} (h : (parse a).error = none) (b : String) :
    parse (a ++ b) = ((parse b).shifted a.utf8ByteSize).behind (parse a).directives := by
  have hsize : byteSize a.toList = a.utf8ByteSize := by rw [byteSize_eq, String.ofList_toList]
  rw [parse, String.toList_append, parseAt_append h, hsize, parseAt_shifted]
  rfl

/-! ## Directives without what stands between them -/

/-- The directive with nothing in front of it. -/
def Piece.bare (p : Piece) : Piece := { p with gap := [] }

theorem directivesAt_texts (offset : Nat) (pieces : List Piece) :
    (directivesAt offset pieces).flatMap (fun d => d.text.toList) = spelled (pieces.map Piece.bare) := by
  induction pieces generalizing offset with
  | nil => rfl
  | cons p pieces ih =>
    rw [directivesAt, List.flatMap_cons, List.map_cons, spelled_cons, ih]
    simp [Piece.directive, Piece.bare, Piece.text]

theorem directivesAt_bare (offset offset' : Nat) (pieces : List Piece) :
    (directivesAt offset (pieces.map Piece.bare)).map Directive.unplaced =
      (directivesAt offset' pieces).map Directive.unplaced := by
  induction pieces generalizing offset offset' with
  | nil => rfl
  | cons p pieces ih =>
    rw [List.map_cons, directivesAt, directivesAt, List.map_cons, List.map_cons, ih]
    rfl

/-- What is read of any text are the directives of a sequence of pieces, since reading stops where no directive starts. -/
theorem exists_directivesAt (cs : List Char) (offset : Nat) :
    ∃ pieces, (∀ p ∈ pieces, p.stem.Canonical) ∧ (parseAt offset cs).directives = directivesAt offset pieces := by
  obtain ⟨pieces, gap, rest, ⟨rfl, hgaps, -, hgap, hrest⟩, hcanonical⟩ := exists_splits cs
  refine ⟨pieces, hcanonical, ?_⟩
  rw [parseAt_spelled hgaps hcanonical, parseAt_gap hgap, FormatString.behind, (parseAt_stuck hrest _).1, List.append_nil]

/-- The directives of a text one behind the other are read to the end, and they are the same directives. -/
theorem parse_packed (s : String) : (parse (parse s).packed).error = none ∧
    (parse (parse s).packed).directives.map Directive.unplaced = (parse s).directives.map Directive.unplaced := by
  obtain ⟨pieces, hcanonical, hdirectives⟩ := exists_directivesAt s.toList 0
  have htext : (parse s).packed.toList = spelled (pieces.map Piece.bare) ++ [] := by
    rw [List.append_nil, ← directivesAt_texts 0 pieces, ← hdirectives, FormatString.packed, String.toList_join,
      List.flatMap_map]
    rfl
  have hread : parse (parse s).packed = ⟨directivesAt 0 (pieces.map Piece.bare), none⟩ := by
    have hgaps : ∀ p ∈ pieces.map Piece.bare, '%' ∉ p.gap := by simp [Piece.bare]
    have hbare : ∀ p ∈ pieces.map Piece.bare, p.stem.Canonical := List.forall_mem_map.2 hcanonical
    rw [parse, htext, parseAt_spelled hgaps hbare]
    simp [parseAt, FormatString.behind]
  rw [hread]
  refine ⟨rfl, ?_⟩
  rw [directivesAt_bare 0 0, ← hdirectives]
  rfl

/-! ## Numbers of arguments -/

namespace FormatString

theorem argumentCount_eq (f : FormatString) : f.argumentCount = (f.directives.map Directive.consumes).sum := by
  rw [List.sum, List.foldr_map]
  rfl

/-- How many arguments are read does not depend on offsets. -/
theorem argumentCount_of_unplaced {f g : FormatString}
    (h : f.directives.map Directive.unplaced = g.directives.map Directive.unplaced) : f.argumentCount = g.argumentCount := by
  have hconsumes : ∀ ds : List Directive, ds.map Directive.consumes = (ds.map Directive.unplaced).map Directive.consumes := by
    intro ds
    rw [List.map_map]
    rfl
  rw [argumentCount_eq, argumentCount_eq, hconsumes, h, ← hconsumes]

theorem argumentCount_shifted (n : Nat) (f : FormatString) : (f.shifted n).argumentCount = f.argumentCount := by
  refine argumentCount_of_unplaced ?_
  rw [shifted, List.map_map]
  rfl

theorem argumentCount_behind (f g : FormatString) :
    (g.behind f.directives).argumentCount = f.argumentCount + g.argumentCount := by
  simp only [argumentCount_eq, behind, List.map_append, List.sum_append]

end FormatString

/-- Reading format strings is compositional. Behind a format string that is read to its end every text is read as it is alone,
with the offsets of its directives and of its error further on by the number of bytes in front of it, and the numbers of
arguments add up. The directives of any format string, malformed or not, make a well-formed one when they are written one
behind the other: it has the same directives up to their offsets, and reads as many arguments. -/
theorem parse_concatenated :
    (∀ a b : String, (parse a).error = none →
      (parse (a ++ b)).directives = (parse a).directives ++ (parse b).directives.map (.shifted a.utf8ByteSize) ∧
      (parse (a ++ b)).error = (parse b).error.map (.shifted a.utf8ByteSize) ∧
      (parse (a ++ b)).argumentCount = (parse a).argumentCount + (parse b).argumentCount) ∧
    ∀ s : String, (parse (parse s).packed).error = none ∧
      (parse (parse s).packed).directives.map Directive.unplaced = (parse s).directives.map Directive.unplaced ∧
      (parse (parse s).packed).argumentCount = (parse s).argumentCount := by
  constructor
  · intro a b ha
    rw [parse_append ha, FormatString.argumentCount_behind, FormatString.argumentCount_shifted]
    exact ⟨rfl, rfl, rfl⟩
  · intro s
    obtain ⟨herror, hdirectives⟩ := parse_packed s
    exact ⟨herror, hdirectives, FormatString.argumentCount_of_unplaced hdirectives⟩

/-- Behind `é%*lld%%`, which has nine bytes, `%-5s%y` is read as it is alone: the string at offset 9, and the error at
offset 13. -/
theorem parse_concatenated_malformed :
    (parse "é%*lld%%").error = none ∧
    (parse ("é%*lld%%" ++ "%-5s%y")).directives.map Directive.offset = [2, 7, 9] ∧
    (parse ("é%*lld%%" ++ "%-5s%y")).error = some (.unknownConversion 13 'y' "%y") ∧
    (parse ("é%*lld%%" ++ "%-5s%y")).argumentCount = 3 := by
  have ha : (parse "é%*lld%%").error = none := by decide +kernel
  obtain ⟨hdirectives, herror, hcount⟩ := parse_concatenated.1 "é%*lld%%" "%-5s%y" ha
  rw [hdirectives, herror, hcount]
  exact ⟨ha, by decide +kernel, by decide +kernel, by decide +kernel⟩

end FlowLint.Format
