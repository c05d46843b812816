import FlowLint.Proofs.Flow.Worklist

/-!
# Liveness is arrival

If no two labels share a name, a statement is live exactly if control can arrive at it, a block is entered exactly if control
can arrive at its start, and it is left through its end exactly if control can arrive there (`isLive_iff_arrives`). Between two
scans a survey says only what holds (`SurveySound`), and all of it for the blocks that do not wait (`SurveyScanned`).
-/

namespace FlowLint.Flow

namespace Liveness

/-- A live statement has a lit flag. -/
theorem isLive_iff {l : Liveness} {p : Point} : l.isLive p = true ↔ ∃ row, l.rows[p.block]? = some row ∧ Lit row p.index := by
  unfold isLive Lit
  cases l.rows[p.block]? with
  | none => simp
  | some row => cases h : row[p.index]? <;> simp [h]

/-- A block that is left through its end has a lit flag. -/
theorem fallsThrough_iff {l : Liveness} {b : Nat} : l.fallsThrough b = true ↔ Lit l.leaves b := by
  unfold fallsThrough Lit
  cases l.leaves[b]? <;> simp

section

variable {rows : List (List Bool)} {entered entered' : List Nat} {leaves leaves' : List Bool}

/-- A new row has the flags of its block. -/
theorem isLive_set_self {b i : Nat} {row : List Bool} (hb : b < rows.length) :
    (⟨rows.set b row, entered, leaves⟩ : Liveness).isLive ⟨b, i⟩ = true ↔ Lit row i := by
  rw [isLive_iff]
  simp [hb]

/-- A new row leaves the flags of other blocks as they are. -/
theorem isLive_set_of_ne {b : Nat} {row : List Bool} {p : Point} (h : p.block ≠ b) :
    (⟨rows.set b row, entered, leaves⟩ : Liveness).isLive p = (⟨rows, entered', leaves'⟩ : Liveness).isLive p := by
  unfold isLive
  rw [List.getElem?_set_ne h.symm]

/-- A new flag is the one of its block. -/
theorem fallsThrough_set_self {b : Nat} {here : Bool} (hb : b < leaves.length) :
    (⟨rows, entered, leaves.set b here⟩ : Liveness).fallsThrough b = here := by
  unfold fallsThrough
  simp [hb]

/-- A new flag leaves those of other blocks as they are. -/
theorem fallsThrough_set_of_ne {rows' : List (List Bool)} {b c : Nat} {here : Bool} (h : c ≠ b) :
    (⟨rows, entered, leaves.set b here⟩ : Liveness).fallsThrough c = (⟨rows', entered', leaves⟩ : Liveness).fallsThrough c := by
  unfold fallsThrough
  rw [List.getElem?_set_ne h.symm]

end

end Liveness

namespace Graph

variable {g : Graph}

/-- A survey of the blocks of a graph. -/
structure SurveyFits (g : Graph) (s : Survey) : Prop where
  marks : g.MarksFit s.marks
  rows_length : s.rows.length = g.size
  leaves_length : s.leaves.length = g.size

theorem SurveyFits.unscanned (g : Graph) : g.SurveyFits g.unscanned :=
  ⟨g.unscanned_fits.1, by simp [Graph.unscanned], by simp [Graph.unscanned]⟩

theorem SurveyFits.advance {s : Survey} (h : g.SurveyFits s) : g.SurveyFits (g.advance s) := by
  refine ⟨(advance_fits h.marks).1, ?_, ?_⟩
  · unfold Graph.advance
    split
    · exact h.rows_length
    · rw [List.length_set, h.rows_length]
  · unfold Graph.advance
    split
    · exact h.leaves_length
    · rw [List.length_set, h.leaves_length]

/-- What holds before the first scan and is kept by scans holds after some scans. -/
theorem settle_induct {P : Survey → Prop} (h0 : P g.unscanned) (hstep : ∀ s, g.SurveyFits s → P s → P (g.advance s)) (n : Nat) :
    g.SurveyFits (g.settle n g.unscanned) ∧ P (g.settle n g.unscanned) := by
  induction n with
  | zero => exact ⟨.unscanned g, h0⟩
  | succ n ih =>
    rw [settle_add]
    exact ⟨ih.1.advance, hstep _ ih.1 ih.2⟩

/-- What holds before the first scan and is kept by scans holds of the survey. -/
theorem survey_induct {P : Survey → Prop} (h0 : P g.unscanned) (hstep : ∀ s, g.SurveyFits s → P s → P (g.advance s)) :
    P g.survey :=
  (settle_induct h0 hstep g.scanBound).2

/-- A survey that says only what holds. -/
structure SurveySound (g : Graph) (s : Survey) : Prop where
  marks : g.MarksSound s.marks
  live : ∀ p, s.liveness.isLive p = true → Arrives g (.statement p)
  leaves : ∀ b, s.liveness.fallsThrough b = true → Arrives g (.finish b)

/-- Before the first scan nothing is live. -/
theorem unscanned_isLive (g : Graph) (p : Point) : g.unscanned.liveness.isLive p = false := by
  rw [Bool.eq_false_iff]
  intro h
  obtain ⟨row, hrow, hlit⟩ := Liveness.isLive_iff.1 h
  simp only [Survey.liveness, unscanned, List.getElem?_map, Option.map_eq_some_iff] at hrow
  obtain ⟨b, -, rfl⟩ := hrow
  exact not_lit_map_false _ _ hlit

/-- Before the first scan no block is left. -/
theorem unscanned_fallsThrough (g : Graph) (b : Nat) : g.unscanned.liveness.fallsThrough b = false := by
  rw [Bool.eq_false_iff]
  intro h
  exact not_lit_map_false _ _ (Liveness.fallsThrough_iff.1 h)

theorem unscanned_sound (g : Graph) : g.SurveySound g.unscanned := by
  refine ⟨⟨fun b hb => ?_, fun x hx => absurd hx List.not_mem_nil⟩, fun p hp => ?_, fun b hb => ?_⟩
  · exact List.mem_singleton.1 hb ▸ .entry
  · rw [unscanned_isLive] at hp
    cases hp
  · rw [unscanned_fallsThrough] at hb
    cases hb

/-- A scan says only what holds. -/
theorem SurveySound.advance (hu : g.LabelsUnique) {s : Survey} (h : g.SurveySound s) (hf : g.SurveyFits s) :
    g.SurveySound (g.advance s) := by
  unfold Graph.advance
  split
  · exact h
  · rename_i b rest hp
    have hb : b < g.size := hf.marks.pending_lt b (by rw [hp]; exact List.mem_cons_self)
    obtain ⟨hm, hrow, hhere⟩ := scan_sound hu (m := { s.marks with pending := rest }) ⟨h.marks.entered, h.marks.revived⟩ b
    refine ⟨hm, fun p hl => ?_, fun c hl => ?_⟩
    · by_cases hpb : p.block = b
      · obtain ⟨c, i⟩ := p
        dsimp only at hpb
        subst hpb
        exact hrow i ((Liveness.isLive_set_self (hf.rows_length ▸ hb)).1 hl)
      · exact h.live p (Liveness.isLive_set_of_ne hpb ▸ hl)
    · by_cases hcb : c = b
      · subst hcb
        exact hhere ((Liveness.fallsThrough_set_self (hf.leaves_length ▸ hb)).symm.trans hl)
      · exact h.leaves c (Liveness.fallsThrough_set_of_ne hcb ▸ hl)

/-- A survey that leaves nothing out in the blocks that do not wait. -/
structure SurveyScanned (g : Graph) (s : Survey) : Prop where
  entry : g.entry ∈ s.marks.entered
  scanned : ∀ b < g.size, b ∉ s.marks.pending →
    g.Scanned b (g.statements b).length (b ∈ s.marks.entered) (fun i => s.liveness.isLive ⟨b, i⟩ = true)
      (s.liveness.fallsThrough b = true) s.marks
  successors : ∀ b < g.size, b ∉ s.marks.pending →
    s.liveness.fallsThrough b = true → ∀ t ∈ g.successors b, t ∈ s.marks.entered

/-- Before the first scan only the entry is entered, and it waits with the labels of a `switch`. -/
theorem unscanned_scanned (g : Graph) : g.SurveyScanned g.unscanned := by
  refine ⟨List.mem_singleton_self _, fun b hb hp => ?_, fun b _ _ hl => ?_⟩
  · have hentry : b ∉ g.unscanned.marks.entered := fun hmem => hp (List.mem_singleton.1 hmem ▸ List.mem_cons_self)
    have hcomes : ∀ i, ¬g.ComesTo b (b ∈ g.unscanned.marks.entered)
        (fun i => g.unscanned.liveness.isLive ⟨b, i⟩ = true) i := by
      rintro i (⟨-, hmem⟩ | ⟨j, s, -, hl, -⟩)
      · exact hentry hmem
      · simp [unscanned_isLive] at hl
    refine ⟨fun i _ hc => absurd hc (hcomes i), fun i _ s hs hw => ?_, fun i _ name _ hr => absurd hr List.not_mem_nil,
      fun i s hl _ => ?_, fun hc => absurd hc (hcomes _)⟩
    · have hmem : b ∈ g.switchTargets :=
        List.mem_filter.2 ⟨List.mem_range.2 hb, List.any_eq_true.2 ⟨s, mem_statements hs, hw⟩⟩
      exact absurd (List.mem_cons_of_mem _ hmem) hp
    · simp [unscanned_isLive] at hl
  · simp [unscanned_fallsThrough] at hl

/-- A scan leaves nothing out in its block, unless it waits again, and other blocks that do not wait are not concerned: no mark
that concerns them is new. -/
theorem SurveyScanned.advance (hu : g.LabelsUnique) {s : Survey} (h : g.SurveyScanned s) (hf : g.SurveyFits s) :
    g.SurveyScanned (g.advance s) := by
  unfold Graph.advance
  split
  · exact h
  · rename_i b rest hp
    have hb : b < g.size := hf.marks.pending_lt b (by rw [hp]; exact List.mem_cons_self)
    obtain ⟨hgrow, -, hsc, hsucc⟩ := scan_scanned hu { s.marks with pending := rest } b
    dsimp only at hgrow hsc hsucc ⊢
    generalize g.scan { s.marks with pending := rest } b = sc at hgrow hsc hsucc
    have hwaits : ∀ c, c ≠ b → c ∉ sc.marks.pending → c ∉ s.marks.pending := by
      intro c hcb hcp hmem
      rw [hp] at hmem
      rcases List.mem_cons.1 hmem with hmem | hmem
      · exact hcb hmem
      · exact hcp (hgrow.pending c hmem)
    refine ⟨hgrow.entered _ h.entry, fun c hc hcp => ?_, fun c hc hcp hl t ht => ?_⟩
    · have hentered : c ∈ sc.marks.entered → c ∈ s.marks.entered := fun hmem =>
        (hgrow.enteredWaits c hmem).resolve_right hcp
      by_cases hcb : c = b
      · subst hcb
        simp only [Survey.liveness, Liveness.isLive_set_self (hf.rows_length ▸ hc),
          Liveness.fallsThrough_set_self (hf.leaves_length ▸ hc)]
        exact hsc.grow hu (.refl _) hentered
      · have hlive : ∀ i, (⟨s.rows.set b sc.row, sc.marks.entered, s.leaves.set b sc.here⟩ : Liveness).isLive ⟨c, i⟩ =
            s.liveness.isLive ⟨c, i⟩ := fun i => Liveness.isLive_set_of_ne hcb
        have hleaves : (⟨s.rows.set b sc.row, sc.marks.entered, s.leaves.set b sc.here⟩ : Liveness).fallsThrough c =
            s.liveness.fallsThrough c := Liveness.fallsThrough_set_of_ne hcb
        simp only [Survey.liveness] at hlive hleaves ⊢
        simp only [hlive, hleaves]
        exact ((h.scanned c hc (hwaits c hcb hcp)).of_not_waiting (hwaits c hcb hcp)).grow hu hgrow hentered
    · by_cases hcb : c = b
      · subst hcb
        exact hsucc ((Liveness.fallsThrough_set_self (hf.leaves_length ▸ hc)).symm.trans hl) t ht
      · exact hgrow.entered t (h.successors c hc (hwaits c hcb hcp) (Liveness.fallsThrough_set_of_ne hcb ▸ hl) t ht)

/-- What is known of a spot. -/
def Known (l : Liveness) : Spot → Prop
  | .start b => l.isEntered b = true
  | .statement p => l.isLive p = true
  | .finish b => l.fallsThrough b = true

/-- The starts that control arrives at are starts of blocks. -/
theorem lt_of_arrives_start {b : Nat} (h : Arrives g (.start b)) : b < g.size := by
  cases h with
  | entry => exact g.entry_lt
  | enter _ _ hd _ => exact lt_of_destination? hd
  | successor _ ht => exact lt_of_mem_successors ht

/-- When no block waits, everything that control arrives at is known. -/
theorem known_of_arrives {s : Survey} (h : g.SurveyScanned s) (hp : s.marks.pending = []) {x : Spot} (hx : Arrives g x) :
    Known s.liveness x := by
  have hwait : ∀ b, b ∉ s.marks.pending := fun b hb => by rw [hp] at hb; exact List.not_mem_nil hb
  have hentered : ∀ b, s.liveness.isEntered b = true ↔ b ∈ s.marks.entered := fun b => List.contains_iff_mem
  induction hx with
  | entry => exact (hentered _).2 h.entry
  | switchLabel hs hw => exact (h.scanned _ (block_lt hs) (hwait _)).switchLabel _ (index_lt hs) _ hs hw
  | first _ hs ih =>
    exact (h.scanned _ (block_lt hs) (hwait _)).inFront _ (index_lt hs) (.inl ⟨rfl, (hentered _).1 ih⟩)
  | next _ hs hn hs' ih => exact (h.scanned _ (block_lt hs) (hwait _)).inFront _ (index_lt hs') (.inr ⟨_, _, rfl, ih, hs, hn⟩)
  | land _ hs hd hl ih =>
    obtain ⟨-, name, hname, hq⟩ := landsOn_iff.1 hl
    obtain ⟨x, hx, -⟩ := labelAt?_eq_some_iff.1 hq
    have hr := (((h.scanned _ (block_lt hs) (hwait _)).followed _ _ ih hs) _ hd).1 name hname
    exact ((h.scanned _ (block_lt hx) (hwait _)).userLabel _ (index_lt hx) name hq hr).resolve_right (hwait _)
  | enter _ hs hd hl ih =>
    have hr := (((h.scanned _ (block_lt hs) (hwait _)).followed _ _ ih hs) _ hd).2 (landing?_eq_none_iff.2 hl)
    exact (hentered _).2 hr
  | behindNothing hb hnil ih =>
    refine (h.scanned _ (lt_of_arrives_start hb) (hwait _)).behind (.inl ⟨?_, (hentered _).1 ih⟩)
    rw [hnil]
    rfl
  | behindLast _ hs hn hlen ih =>
    exact (h.scanned _ (block_lt hs) (hwait _)).behind (.inr ⟨_, _, hlen.symm, ih, hs, hn⟩)
  | @successor b t hb ht ih =>
    have hlt : b < g.size := by
      cases hb with
      | behindNothing hb _ => exact lt_of_arrives_start hb
      | behindLast _ hs _ _ => exact block_lt hs
    exact (hentered _).2 (h.successors _ hlt (hwait _) ih _ ht)

/-- Scans come to an end, and what they leave is exactly where control can arrive. -/
theorem isLive_iff_arrives (g : Graph) (hu : g.LabelsUnique) :
    (g.survey.marks.pending = [] ∧ ∀ n ≥ g.scanBound, g.settle n g.unscanned = g.survey) ∧
    (∀ p, g.liveness.isLive p = true ↔ Arrives g (.statement p)) ∧
    (∀ b, g.liveness.isEntered b = true ↔ Arrives g (.start b)) ∧
    (∀ b, g.liveness.fallsThrough b = true ↔ Arrives g (.finish b)) := by
  have hsound : g.SurveySound g.survey := survey_induct g.unscanned_sound fun _ hf h => h.advance hu hf
  have hscanned : g.SurveyScanned g.survey := survey_induct g.unscanned_scanned fun _ hf h => h.advance hu hf
  have hknown : ∀ x, Arrives g x → Known g.liveness x := fun _ => known_of_arrives hscanned g.survey_pending
  refine ⟨⟨g.survey_pending, fun _ => g.settle_eq_survey⟩, fun p => ⟨hsound.live p, hknown _⟩, fun b => ⟨fun h => ?_, hknown _⟩,
    fun b => ⟨hsound.leaves b, hknown _⟩⟩
  exact hsound.marks.entered b (List.contains_iff_mem.1 h)

/-- A function whose loop is entered in the middle of a block, with a `case` label that no block leads to. -/
def midLoop : Graph where
  function :=
    { (default : Function) with
      blocks :=
        [⟨0, [⟨.jump ⟨.goto, some 1, some "mid", none⟩, .zero⟩], []⟩,
         ⟨1, [⟨.other, .zero⟩, ⟨.label "mid" .user, .zero⟩, ⟨.other, .zero⟩], [2]⟩,
         ⟨2, [⟨.jump ⟨.goto, some 1, some "mid", none⟩, .zero⟩, ⟨.other, .zero⟩], [3]⟩,
         ⟨3, [⟨.other, .zero⟩, ⟨.label "1" .case, .zero⟩, ⟨.jump ⟨.break, some 2, none, none⟩, .zero⟩], []⟩] }
  faultless := rfl

/-- Control gets into the loop at its label and from the `case`, and nowhere else. -/
theorem arrives_midLoop :
    midLoop.LabelsUnique ∧ Arrives midLoop (.statement ⟨1, 2⟩) ∧ ¬Arrives midLoop (.statement ⟨1, 0⟩) ∧
      ¬Arrives midLoop (.start 1) ∧ Arrives midLoop (.finish 1) ∧ Arrives midLoop (.statement ⟨3, 2⟩) ∧
      ¬Arrives midLoop (.start 3) := by
  have hu : midLoop.LabelsUnique := by decide +kernel
  obtain ⟨-, hlive, hentered, hfalls⟩ := isLive_iff_arrives midLoop hu
  refine ⟨hu, ?_⟩
  rw [← hlive, ← hlive, ← hlive, ← hentered, ← hentered, ← hfalls]
  decide +kernel

end Graph

end FlowLint.Flow
