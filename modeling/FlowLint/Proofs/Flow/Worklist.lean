import FlowLint.Proofs.Flow.Scan

/-!
# The worklist runs empty

Each scan takes a block off the worklist, and a block comes onto it only when a block becomes entered or a label becomes revived.
`work` counts the blocks that wait and those marks that are still missing: no step of a scan raises it (`scan_fits`), so the
bound on the number of scans is enough (`survey_pending`), and more scans change nothing (`settle_eq_survey`). Labels may share
names here.
-/

namespace FlowLint.Flow

namespace Graph

variable {g : Graph}

/-- The names of the labels for `goto`. -/
def labels (g : Graph) : List String := g.function.statements.filterMap userLabel?

/-- Labels carry no code. -/
theorem length_labels_le (g : Graph) : g.labels.length ≤ g.labelCount := by
  unfold labels labelCount
  induction g.function.statements with
  | nil => exact Nat.le_refl 0
  | cons s l ih =>
    cases hs : userLabel? s with
    | none =>
      rw [List.filterMap_cons_none hs, List.filter_cons]
      split
      · exact Nat.le_succ_of_le ih
      · exact ih
    | some name =>
      have hcode : s.isCode = false := by
        unfold Statement.isCode
        rw [userLabel?_eq_some_iff.1 hs]
      rw [List.filterMap_cons_some hs, List.filter_cons]
      simpa [hcode] using ih

/-- The name at a labelled place is the name of a label. -/
theorem mem_labels {p : Point} {name : String} (h : g.labelAt? p = some name) : name ∈ g.labels := by
  obtain ⟨s, hs, hn⟩ := labelAt?_eq_some_iff.1 h
  exact List.mem_filterMap.2 ⟨s, mem_function_statements (mem_statements hs), hn⟩

/-- Marks name blocks and labels of the graph, each once. -/
structure MarksFit (g : Graph) (m : Marks) : Prop where
  entered_lt : ∀ b ∈ m.entered, b < g.size
  entered_nodup : m.entered.Nodup
  revived_mem : ∀ name ∈ m.revived, name ∈ g.labels
  revived_nodup : m.revived.Nodup
  pending_lt : ∀ b ∈ m.pending, b < g.size

/-- The blocks that wait, and the marks that may still be made. -/
def work (g : Graph) (m : Marks) : Nat :=
  m.pending.length + (g.size - m.entered.length) + (g.labelCount - m.revived.length)

/-- Different blocks of a graph are no more than its size. -/
theorem length_le_size {l : List Nat} (hn : l.Nodup) (hl : ∀ b ∈ l, b < g.size) : l.length ≤ g.size := by
  have hsub : l ⊆ List.range g.size := fun b hb => List.mem_range.2 (hl b hb)
  have hle := hn.length_le_of_subset hsub
  rwa [List.length_range] at hle

/-- Entering a block makes no work: it waits, but one mark less is missing. -/
theorem MarksFit.enter {m : Marks} {t : Nat} (h : g.MarksFit m) (ht : t < g.size) :
    g.MarksFit (m.enter t) ∧ g.work (m.enter t) ≤ g.work m := by
  unfold Marks.enter
  split
  · exact ⟨h, Nat.le_refl _⟩
  · rename_i hc
    have hnew : t ∉ m.entered := fun hmem => hc (List.contains_iff_mem.2 hmem)
    have hnodup : (t :: m.entered).Nodup := List.nodup_cons.2 ⟨hnew, h.entered_nodup⟩
    have hlt : ∀ b ∈ t :: m.entered, b < g.size := by
      intro b hb
      rcases List.mem_cons.1 hb with rfl | hb
      · exact ht
      · exact h.entered_lt b hb
    have hle := length_le_size hnodup hlt
    refine ⟨⟨hlt, hnodup, h.revived_mem, h.revived_nodup, fun b hb => ?_⟩, ?_⟩
    · rcases List.mem_append.1 hb with hb | hb
      · exact h.pending_lt b hb
      · exact List.mem_singleton.1 hb ▸ ht
    · simp only [work, List.length_cons, List.length_append, List.length_nil] at hle ⊢
      omega

/-- Reviving a label makes no work: its block waits, but one mark less is missing. -/
theorem MarksFit.revive {m : Marks} {name : String} {t : Nat} (h : g.MarksFit m) (hname : name ∈ g.labels) (ht : t < g.size) :
    g.MarksFit (m.revive name t) ∧ g.work (m.revive name t) ≤ g.work m := by
  unfold Marks.revive
  split
  · exact ⟨h, Nat.le_refl _⟩
  · rename_i hc
    have hnew : name ∉ m.revived := fun hmem => hc (List.contains_iff_mem.2 hmem)
    have hnodup : (name :: m.revived).Nodup := List.nodup_cons.2 ⟨hnew, h.revived_nodup⟩
    have hmem : ∀ x ∈ name :: m.revived, x ∈ g.labels := by
      intro x hx
      rcases List.mem_cons.1 hx with rfl | hx
      · exact hname
      · exact h.revived_mem x hx
    have hle := Nat.le_trans (hnodup.length_le_of_subset hmem) g.length_labels_le
    refine ⟨⟨h.entered_lt, h.entered_nodup, hmem, hnodup, fun b hb => ?_⟩, ?_⟩
    · rcases List.mem_append.1 hb with hb | hb
      · exact h.pending_lt b hb
      · exact List.mem_singleton.1 hb ▸ ht
    · simp only [work, List.length_cons, List.length_append, List.length_nil] at hle ⊢
      omega

/-- Following a jump makes no work. -/
theorem MarksFit.follow {m : Marks} (h : g.MarksFit m) (s : Statement) :
    g.MarksFit (g.follow s m) ∧ g.work (g.follow s m) ≤ g.work m := by
  unfold Graph.follow
  split
  · exact ⟨h, Nat.le_refl _⟩
  · rename_i t ht
    split
    · rename_i name hname
      obtain ⟨-, q, -, hq⟩ := landing?_eq_some_iff.1 hname
      exact h.revive (mem_labels hq) (lt_of_destination? ht)
    · exact h.enter (lt_of_destination? ht)

/-- A scan makes no work. -/
theorem scan_fits {m : Marks} (h : g.MarksFit m) (b : Nat) :
    g.MarksFit (g.scan m b).marks ∧ g.work (g.scan m b).marks ≤ g.work m := by
  let P : Marks → Prop := fun m' => g.MarksFit m' ∧ g.work m' ≤ g.work m
  have hstep : ∀ sc s, P sc.marks → g.statement? ⟨b, sc.row.length⟩ = some s → P (g.scanStep sc s).marks := by
    intro sc s hp _
    rcases g.scanStep_cases sc s with ⟨-, -, heq⟩ | ⟨-, heq⟩
    · rw [heq]
      exact ⟨(hp.1.follow s).1, Nat.le_trans (hp.1.follow s).2 hp.2⟩
    · rw [heq]
      exact hp
  have hfold : P ((g.statements b).foldl g.scanStep ⟨[], m.entered.contains b, m⟩).marks :=
    (scan_induct (P := fun sc => P sc.marks) ⟨h, Nat.le_refl _⟩ hstep).1
  unfold scan
  dsimp only
  split
  · refine foldl_enter_induct (P := P) hfold fun m' hm t ht => ?_
    have hs := hm.1.enter (lt_of_mem_successors ht)
    exact ⟨hs.1, Nat.le_trans hs.2 hm.2⟩
  · exact hfold

/-- A scan of a block that waits does work. -/
theorem advance_fits {s : Survey} (h : g.MarksFit s.marks) :
    g.MarksFit (g.advance s).marks ∧ (s.marks.pending ≠ [] → g.work (g.advance s).marks < g.work s.marks) := by
  unfold advance
  split
  · rename_i hp
    exact ⟨h, fun hne => absurd hp hne⟩
  · rename_i b rest hp
    have hrest : g.MarksFit { s.marks with pending := rest } := by
      refine ⟨h.entered_lt, h.entered_nodup, h.revived_mem, h.revived_nodup, fun x hx => h.pending_lt x ?_⟩
      rw [hp]
      exact List.mem_cons_of_mem b hx
    obtain ⟨hfit, hwork⟩ := scan_fits hrest b
    refine ⟨hfit, fun _ => ?_⟩
    simp only [work, hp, List.length_cons] at hwork ⊢
    omega

/-- When nothing waits, further scans change nothing. -/
theorem settle_of_pending_eq_nil {s : Survey} (h : s.marks.pending = []) (n : Nat) : g.settle n s = s := by
  induction n with
  | zero => rfl
  | succ n ih =>
    have hs : g.advance s = s := by
      unfold advance
      rw [h]
    rw [settle, hs, ih]

/-- As many scans as there is work leave nothing waiting. -/
theorem settle_pending {n : Nat} {s : Survey} (h : g.MarksFit s.marks) (hn : g.work s.marks ≤ n) :
    (g.settle n s).marks.pending = [] := by
  induction n generalizing s with
  | zero =>
    have : s.marks.pending.length = 0 := by
      simp only [work] at hn
      omega
    exact List.eq_nil_of_length_eq_zero this
  | succ n ih =>
    by_cases hp : s.marks.pending = []
    · rw [settle_of_pending_eq_nil hp]
      exact hp
    · obtain ⟨hfit, hwork⟩ := advance_fits h
      exact ih hfit (Nat.le_of_lt_succ (Nat.lt_of_lt_of_le (hwork hp) hn))

/-- The marks before the first scan are marks of the graph, and the bound on the scans is their work. -/
theorem unscanned_fits (g : Graph) : g.MarksFit g.unscanned.marks ∧ g.work g.unscanned.marks ≤ g.scanBound := by
  have hlt : ∀ b ∈ g.switchTargets, b < g.size := fun b hb => List.mem_range.1 (List.mem_filter.1 hb).1
  have hlen : g.switchTargets.length ≤ g.size := by
    have := List.length_filter_le (fun b => (g.statements b).any isSwitchLabel) (List.range g.size)
    rwa [List.length_range] at this
  have hpos := g.entry_lt
  have hone : [g.entry].Nodup := List.nodup_cons.2 ⟨List.not_mem_nil, List.nodup_nil⟩
  refine ⟨⟨fun b hb => ?_, hone, fun x hx => absurd hx List.not_mem_nil, List.nodup_nil, fun b hb => ?_⟩, ?_⟩
  · exact List.mem_singleton.1 hb ▸ hpos
  · rcases List.mem_cons.1 hb with rfl | hb
    · exact hpos
    · exact hlt b hb
  · simp only [work, unscanned, scanBound, List.length_cons, List.length_nil]
    omega

/-- At the end no block waits. -/
theorem survey_pending (g : Graph) : g.survey.marks.pending = [] :=
  settle_pending g.unscanned_fits.1 g.unscanned_fits.2

/-- Scans one after the other. -/
theorem settle_add (g : Graph) (m n : Nat) (s : Survey) : g.settle (m + n) s = g.settle n (g.settle m s) := by
  induction m generalizing s with
  | zero =>
    rw [Nat.zero_add]
    rfl
  | succ m ih =>
    rw [Nat.succ_add]
    exact ih (g.advance s)

/-- More scans would find nothing more. -/
theorem settle_eq_survey (g : Graph) {n : Nat} (hn : g.scanBound ≤ n) : g.settle n g.unscanned = g.survey := by
  obtain ⟨k, rfl⟩ := Nat.exists_eq_add_of_le hn
  rw [settle_add]
  exact settle_of_pending_eq_nil g.survey_pending k

end Graph

end FlowLint.Flow
