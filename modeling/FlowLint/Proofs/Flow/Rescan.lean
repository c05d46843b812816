import FlowLint.Proofs.Flow.Liveness

/-!
# Scans one after the other

Marks only grow, so that a later scan of a block finds at least what an earlier one found (`lit_scan_mono`,
`scan_here_mono`). Hence a statement is live, and a block is left at its end, exactly if one of the scans found it so,
whichever came last (`isLive_iff_exists_scan`, `fallsThrough_iff_exists_scan`). Whatever waits is scanned later
(`exists_scan_of_mem_pending`). Labels may share names here.
-/

namespace FlowLint.Flow

namespace Marks

variable {m m' m'' : Marks}

theorem In.refl (m : Marks) : m.In m := ⟨fun _ h => h, fun _ h => h⟩

theorem In.trans (h : m.In m') (h' : m'.In m'') : m.In m'' :=
  ⟨fun b hb => h'.entered b (h.entered b hb), fun name hn => h'.revived name (h.revived name hn)⟩

/-- The blocks that are entered when one more is. -/
theorem mem_enter {b t : Nat} : b ∈ (m.enter t).entered ↔ b = t ∨ b ∈ m.entered := by
  unfold enter
  split
  · rename_i h
    exact ⟨.inr, fun hb => hb.elim (fun hb => hb ▸ List.contains_iff_mem.1 h) id⟩
  · exact List.mem_cons

theorem revived_enter (m : Marks) (t : Nat) : (m.enter t).revived = m.revived := by
  unfold enter
  split <;> rfl

/-- The labels that are revived when one more is. -/
theorem mem_revive {name x : String} {t : Nat} : x ∈ (m.revive name t).revived ↔ x = name ∨ x ∈ m.revived := by
  unfold revive
  split
  · rename_i h
    exact ⟨.inr, fun hx => hx.elim (fun hx => hx ▸ List.contains_iff_mem.1 h) id⟩
  · exact List.mem_cons

theorem entered_revive (m : Marks) (name : String) (t : Nat) : (m.revive name t).entered = m.entered := by
  unfold revive
  split <;> rfl

theorem In.enter (h : m.In m') (t : Nat) : (m.enter t).In (m'.enter t) := by
  refine ⟨fun b hb => ?_, fun name hn => ?_⟩
  · exact mem_enter.2 ((mem_enter.1 hb).imp_right (h.entered b))
  · rw [revived_enter] at hn ⊢
    exact h.revived name hn

theorem In.revive (h : m.In m') (name : String) (t : Nat) : (m.revive name t).In (m'.revive name t) := by
  refine ⟨fun b hb => ?_, fun x hx => ?_⟩
  · rw [entered_revive] at hb ⊢
    exact h.entered b hb
  · exact mem_revive.2 ((mem_revive.1 hx).imp_right (h.revived x))

end Marks

namespace Graph

variable {g : Graph} {m m' : Marks} {b i n k : Nat} {s : Statement} {p : Point}

/-! ## Marks grow -/

/-- Statements that are scanned only add marks. -/
theorem grows_foldl_scanStep (l : List Statement) (sc : Scan) : g.Grows sc.marks (l.foldl g.scanStep sc).marks := by
  induction l generalizing sc with
  | nil => exact .refl sc.marks
  | cons s l ih => exact (g.grows_scanStep sc s).trans (ih (g.scanStep sc s))

/-- A scan only adds marks, from the start to an index, and from there to its end. -/
theorem grows_scanUpTo (g : Graph) (m : Marks) (b i : Nat) :
    g.Grows m (g.scanUpTo m b i).marks ∧ g.Grows (g.scanUpTo m b i).marks (g.scan m b).marks := by
  refine ⟨grows_foldl_scanStep _ ⟨[], m.entered.contains b, m⟩, ?_⟩
  have hrest : g.Grows (g.scanUpTo m b i).marks ((g.statements b).foldl g.scanStep ⟨[], m.entered.contains b, m⟩).marks := by
    rw [← List.take_append_drop i (g.statements b), List.foldl_append]
    exact grows_foldl_scanStep _ _
  unfold scan
  dsimp only
  split
  · exact hrest.trans (grows_foldl_enter _ _).1
  · exact hrest

theorem grows_scan (g : Graph) (m : Marks) (b : Nat) : g.Grows m (g.scan m b).marks :=
  (g.grows_scanUpTo m b 0).2

/-! ## What a scan finds -/

theorem scan_row (g : Graph) (m : Marks) (b : Nat) : (g.scan m b).row = (g.scanUpTo m b (g.statements b).length).row := by
  rw [scanUpTo_length]
  unfold scan
  dsimp only
  split <;> rfl

theorem scan_here (g : Graph) (m : Marks) (b : Nat) : (g.scan m b).here = (g.scanUpTo m b (g.statements b).length).here := by
  rw [scanUpTo_length]
  unfold scan
  dsimp only
  split <;> rfl

theorem length_scanUpTo_row (hi : i ≤ (g.statements b).length) : (g.scanUpTo m b i).row.length = i :=
  (scanUpTo_induct (P := fun _ => True) trivial (fun _ _ _ _ => trivial) hi).2

/-- A statement is found live if control is at it when the scan comes there. -/
theorem lit_scan_iff_arrives (hs : g.statement? ⟨b, i⟩ = some s) :
    Lit (g.scan m b).row i ↔ arrives (g.scanUpTo m b i) s = true := by
  have hi : i < (g.statements b).length := index_lt hs
  -- later statements add flags of their own
  have hlater : ∀ n, i + 1 ≤ n → n ≤ (g.statements b).length →
      (Lit (g.scanUpTo m b n).row i ↔ arrives (g.scanUpTo m b i) s = true) := by
    intro n hn
    induction hn with
    | refl =>
      intro _
      rw [scanUpTo_succ hs, scanStep_row]
      have hlast : Lit ((g.scanUpTo m b i).row ++ [arrives (g.scanUpTo m b i) s]) (g.scanUpTo m b i).row.length ↔
          arrives (g.scanUpTo m b i) s = true := lit_snoc_length
      rwa [length_scanUpTo_row (Nat.le_of_lt hi)] at hlast
    | @step n hn ih =>
      intro hle
      have hx : g.statement? ⟨b, n⟩ = some (g.statements b)[n] := List.getElem?_eq_getElem hle
      rw [scanUpTo_succ hx, scanStep_row, lit_snoc_of_lt (by rwa [length_scanUpTo_row (Nat.le_of_lt hle)])]
      exact ih (Nat.le_of_lt hle)
  rw [scan_row]
  exact hlater _ hi (Nat.le_refl _)

/-- A scan has control at hand where control comes from in front. -/
theorem scanUpTo_here_iff (hi : i ≤ (g.statements b).length) :
    (g.scanUpTo m b i).here = true ↔ g.ComesTo b (b ∈ m.entered) (Lit (g.scan m b).row) i := by
  cases i with
  | zero =>
    refine List.contains_iff_mem.trans ⟨fun h => .inl ⟨rfl, h⟩, fun h => ?_⟩
    rcases h with ⟨-, h⟩ | ⟨j, s, hj, -⟩
    · exact h
    · cases hj
  | succ j =>
    have hs : g.statement? ⟨b, j⟩ = some (g.statements b)[j] := List.getElem?_eq_getElem hi
    generalize (g.statements b)[j] = s at hs
    have hcomes : g.ComesTo b (b ∈ m.entered) (Lit (g.scan m b).row) (j + 1) ↔
        arrives (g.scanUpTo m b j) s = true ∧ s.asJump = none := by
      rw [← lit_scan_iff_arrives hs]
      constructor
      · rintro (⟨h, -⟩ | ⟨j', s', hj, hl, hs', hn⟩)
        · cases h
        · obtain rfl := Nat.succ.inj hj
          obtain rfl := Option.some.inj (hs.symm.trans hs')
          exact ⟨hl, hn⟩
      · rintro ⟨hl, hn⟩
        exact .inr ⟨j, s, rfl, hl, hs, hn⟩
    rw [hcomes, scanUpTo_succ hs]
    rcases g.scanStep_cases (g.scanUpTo m b j) s with ⟨-, hj, heq⟩ | ⟨hn, heq⟩
    · rw [heq]
      refine ⟨nofun, fun h => ?_⟩
      rw [h.2] at hj
      cases hj
    · rw [heq]
      dsimp only
      exact ⟨fun ha => ⟨ha, hn.resolve_left (by rw [ha]; simp)⟩, fun h => h.1⟩

/-- A statement is found live if control comes to it from in front, or if it is a label where control starts anew: one of a
`switch`, or one whose name is revived when the scan comes there. -/
theorem lit_scan_iff (hs : g.statement? ⟨b, i⟩ = some s) :
    Lit (g.scan m b).row i ↔ g.ComesTo b (b ∈ m.entered) (Lit (g.scan m b).row) i ∨ isSwitchLabel s = true ∨
      ∃ name, userLabel? s = some name ∧ name ∈ (g.scanUpTo m b i).marks.revived := by
  rw [lit_scan_iff_arrives hs, arrives_iff, scanUpTo_here_iff (Nat.le_of_lt (index_lt hs))]

/-- What a statement that is found live does is marked behind the scan. -/
theorem followed_scan (hs : g.statement? ⟨b, i⟩ = some s) (hl : Lit (g.scan m b).row i) : g.Followed s (g.scan m b).marks := by
  have h := (scanStep_of_arrives (g := g) ((lit_scan_iff_arrives hs).1 hl)).1
  rw [← scanUpTo_succ hs] at h
  exact h.mono (g.grows_scanUpTo m b (i + 1)).2.toIn

/-! ## Later scans find more -/

theorem follow_in (h : m.In m') (s : Statement) : (g.follow s m).In (g.follow s m') := by
  unfold follow
  split
  · exact h
  · split
    · exact h.revive _ _
    · exact h.enter _

/-- A scan that is further: control is there too, and what is marked is marked there too. -/
structure Behind (sc sc' : Scan) : Prop where
  here : sc.here = true → sc'.here = true
  marks : sc.marks.In sc'.marks

theorem Behind.arrives_of {sc sc' : Scan} (h : Behind sc sc') (ha : arrives sc s = true) : arrives sc' s = true := by
  rw [arrives_iff] at ha ⊢
  rcases ha with ha | ha | ⟨name, hn, hr⟩
  · exact .inl (h.here ha)
  · exact .inr (.inl ha)
  · exact .inr (.inr ⟨name, hn, h.marks.revived name hr⟩)

theorem Behind.step {sc sc' : Scan} (h : Behind sc sc') (s : Statement) : Behind (g.scanStep sc s) (g.scanStep sc' s) := by
  have hjump : arrives sc s = true → (arrives sc' s = false ∨ s.asJump = none) → s.asJump = none := by
    intro ha hn
    refine hn.resolve_left fun hf => ?_
    rw [h.arrives_of ha] at hf
    exact absurd hf.symm Bool.false_ne_true
  rcases g.scanStep_cases sc s with ⟨ha, hj, heq⟩ | ⟨hn, heq⟩ <;>
    rcases g.scanStep_cases sc' s with ⟨ha', hj', heq'⟩ | ⟨hn', heq'⟩ <;> rw [heq, heq']
  · exact ⟨id, follow_in h.marks s⟩
  · rw [hjump ha hn'] at hj
    cases hj
  · refine ⟨fun hl => ?_, h.marks.trans (grows_follow s sc'.marks).1.toIn⟩
    -- a jump is not passed: control was not at it in the first scan
    rcases hn with hn | hn
    · dsimp only at hl
      rw [hn] at hl
      cases hl
    · rw [hn] at hj'
      cases hj'
  · exact ⟨h.arrives_of, h.marks⟩

/-- A scan with more marks is further wherever it comes. -/
theorem behind_scanUpTo (h : m.In m') (b i : Nat) : Behind (g.scanUpTo m b i) (g.scanUpTo m' b i) := by
  have hfold : ∀ (l : List Statement) {sc sc' : Scan}, Behind sc sc' →
      Behind (l.foldl g.scanStep sc) (l.foldl g.scanStep sc') := by
    intro l
    induction l with
    | nil => exact fun h => h
    | cons s l ih => exact fun h => ih (h.step s)
  exact hfold _ ⟨fun hb => List.contains_iff_mem.2 (h.entered b (List.contains_iff_mem.1 hb)), h⟩

/-- A scan with more marks finds a statement live if one with less does. -/
theorem lit_scan_mono (h : m.In m') (hl : Lit (g.scan m b).row i) : Lit (g.scan m' b).row i := by
  have hi : i < (g.statements b).length := by
    have := hl.lt
    rwa [scan_row, length_scanUpTo_row (Nat.le_refl _)] at this
  have hs : g.statement? ⟨b, i⟩ = some (g.statements b)[i] := List.getElem?_eq_getElem hi
  exact (lit_scan_iff_arrives hs).2 ((behind_scanUpTo h b i).arrives_of ((lit_scan_iff_arrives hs).1 hl))

/-- A scan with more marks finds the end of its block if one with less does. -/
theorem scan_here_mono (h : m.In m') (hh : (g.scan m b).here = true) : (g.scan m' b).here = true := by
  rw [scan_here] at hh ⊢
  exact (behind_scanUpTo h b _).here hh

/-! ## The scans of a graph -/

/-- Behind `n` scans the block `b` waits longest, and it is scanned with the marks `m`. -/
def ScansNext (g : Graph) (n b : Nat) (m : Marks) : Prop :=
  ∃ rest, (g.settle n g.unscanned).marks.pending = b :: rest ∧ m = { (g.settle n g.unscanned).marks with pending := rest }

theorem ScansNext.unique {b' : Nat} (h : g.ScansNext n b m) (h' : g.ScansNext n b' m') : b = b' ∧ m = m' := by
  obtain ⟨rest, hp, rfl⟩ := h
  obtain ⟨rest', hp', rfl⟩ := h'
  obtain ⟨rfl, rfl⟩ := List.cons.inj (hp.symm.trans hp')
  exact ⟨rfl, rfl⟩

theorem settle_fits (g : Graph) (n : Nat) : g.SurveyFits (g.settle n g.unscanned) :=
  (settle_induct (P := fun _ => True) trivial (fun _ _ _ => trivial) n).1

theorem ScansNext.lt (h : g.ScansNext n b m) : b < g.size := by
  obtain ⟨rest, hp, -⟩ := h
  exact (g.settle_fits n).marks.pending_lt b (hp ▸ List.mem_cons_self)

theorem settle_succ (g : Graph) (n : Nat) : g.settle (n + 1) g.unscanned = g.advance (g.settle n g.unscanned) :=
  settle_add g n 1 g.unscanned

/-- The next scan leaves its marks, and what it found in its block. -/
theorem ScansNext.settle_succ (h : g.ScansNext n b m) :
    g.settle (n + 1) g.unscanned = ⟨(g.scan m b).marks, (g.settle n g.unscanned).rows.set b (g.scan m b).row,
      (g.settle n g.unscanned).leaves.set b (g.scan m b).here⟩ := by
  obtain ⟨rest, hp, rfl⟩ := h
  rw [Graph.settle_succ]
  unfold advance
  rw [hp]

/-- Behind some scans there is a next one, or nothing waits and nothing changes any more. -/
theorem exists_scansNext_or (g : Graph) (n : Nat) :
    (∃ b m, g.ScansNext n b m) ∨
      ((g.settle n g.unscanned).marks.pending = [] ∧ g.settle (n + 1) g.unscanned = g.settle n g.unscanned) := by
  cases hp : (g.settle n g.unscanned).marks.pending with
  | nil => exact .inr ⟨rfl, by rw [settle_add, settle_of_pending_eq_nil hp]⟩
  | cons b rest => exact .inl ⟨b, _, rest, hp, rfl⟩

/-- Marks grow from scan to scan. -/
theorem settle_in (h : k ≤ n) : (g.settle k g.unscanned).marks.In (g.settle n g.unscanned).marks := by
  induction h with
  | refl => exact .refl _
  | @step n _ ih =>
    rcases g.exists_scansNext_or n with ⟨b, m, hscan⟩ | ⟨-, heq⟩
    · have hgrow := g.grows_scan m b
      rw [hscan.settle_succ]
      obtain ⟨rest, -, rfl⟩ := hscan
      exact ih.trans ⟨hgrow.entered, hgrow.revived⟩
    · rwa [heq]

/-- A scan starts with all marks that were made before. -/
theorem ScansNext.in_marks (h : g.ScansNext n b m) (hk : k ≤ n) : (g.settle k g.unscanned).marks.In m := by
  obtain ⟨rest, -, rfl⟩ := h
  exact ⟨(settle_in hk).entered, (settle_in hk).revived⟩

/-- A scan starts with no more marks than there are later. -/
theorem ScansNext.marks_in (h : g.ScansNext k b m) (hk : k ≤ n) : m.In (g.settle n g.unscanned).marks := by
  obtain ⟨rest, -, rfl⟩ := h
  exact ⟨(settle_in hk).entered, (settle_in hk).revived⟩

/-- The marks that a scan leaves are kept. -/
theorem ScansNext.scan_in (h : g.ScansNext k b m) (hk : k < n) : (g.scan m b).marks.In (g.settle n g.unscanned).marks := by
  have hin := settle_in (g := g) (Nat.succ_le_of_lt hk)
  rwa [h.settle_succ] at hin

/-- What scans of a block find, more with more marks, and what nothing else concerns, is known exactly if a scan found it. -/
theorem settle_iff_exists_scan (known : Survey → Prop) {found : Marks → Prop} (h0 : ¬known g.unscanned)
    (hmono : ∀ m m', m.In m' → found m → found m')
    (hscan : ∀ n m, g.ScansNext n b m → (known (g.settle (n + 1) g.unscanned) ↔ found m))
    (hother : ∀ n c m, g.ScansNext n c m → c ≠ b →
      (known (g.settle (n + 1) g.unscanned) ↔ known (g.settle n g.unscanned))) (n : Nat) :
    known (g.settle n g.unscanned) ↔ ∃ k < n, ∃ m, g.ScansNext k b m ∧ found m := by
  induction n with
  | zero => exact ⟨fun h => absurd h h0, fun ⟨k, hk, _⟩ => absurd hk (Nat.not_lt_zero k)⟩
  | succ n ih =>
    have hlast : (∃ k < n + 1, ∃ m, g.ScansNext k b m ∧ found m) ↔
        (∃ k < n, ∃ m, g.ScansNext k b m ∧ found m) ∨ ∃ m, g.ScansNext n b m ∧ found m := by
      constructor
      · rintro ⟨k, hk, h⟩
        rcases Nat.lt_succ_iff_lt_or_eq.1 hk with hk | rfl
        · exact .inl ⟨k, hk, h⟩
        · exact .inr h
      · rintro (⟨k, hk, h⟩ | h)
        · exact ⟨k, Nat.lt_succ_of_lt hk, h⟩
        · exact ⟨n, Nat.lt_succ_self n, h⟩
    rw [hlast]
    rcases g.exists_scansNext_or n with ⟨c, m, hnext⟩ | ⟨hnil, heq⟩
    · by_cases hc : c = b
      · subst hc
        rw [hscan n m hnext]
        constructor
        · exact fun h => .inr ⟨m, hnext, h⟩
        · rintro (⟨k, hk, m', hm', h⟩ | ⟨m', hm', h⟩)
          · exact hmono m' m ((hm'.marks_in (Nat.le_refl k)).trans (hnext.in_marks (Nat.le_of_lt hk))) h
          · exact (hnext.unique hm').2 ▸ h
      · rw [hother n c m hnext hc, ih]
        exact (or_iff_left fun ⟨m', hm', _⟩ => hc (hnext.unique hm').1).symm
    · rw [heq, ih]
      refine (or_iff_left fun ⟨m', ⟨rest, hp, _⟩, _⟩ => ?_).symm
      rw [hnil] at hp
      cases hp

/-- A statement is live behind some scans exactly if one of them found it so. -/
theorem isLive_settle_iff (n : Nat) (p : Point) : (g.settle n g.unscanned).liveness.isLive p = true ↔
    ∃ k < n, ∃ m, g.ScansNext k p.block m ∧ Lit (g.scan m p.block).row p.index := by
  refine settle_iff_exists_scan (fun s => s.liveness.isLive p = true) (by simp [unscanned_isLive])
    (fun m m' h => lit_scan_mono h) (fun n m h => ?_) (fun n c m h hc => ?_) n
  · rw [h.settle_succ]
    exact Liveness.isLive_set_self ((g.settle_fits n).rows_length ▸ h.lt)
  · rw [h.settle_succ]
    exact Bool.eq_iff_iff.1 (Liveness.isLive_set_of_ne (Ne.symm hc))

/-- A block is left at its end behind some scans exactly if one of them found it so. -/
theorem fallsThrough_settle_iff (n b : Nat) : (g.settle n g.unscanned).liveness.fallsThrough b = true ↔
    ∃ k < n, ∃ m, g.ScansNext k b m ∧ (g.scan m b).here = true := by
  refine settle_iff_exists_scan (fun s => s.liveness.fallsThrough b = true) (by simp [unscanned_fallsThrough])
    (fun m m' h => scan_here_mono h) (fun n m h => ?_) (fun n c m h hc => ?_) n
  · rw [h.settle_succ]
    exact Bool.eq_iff_iff.1 (Liveness.fallsThrough_set_self ((g.settle_fits n).leaves_length ▸ h.lt))
  · rw [h.settle_succ]
    exact Bool.eq_iff_iff.1 (Liveness.fallsThrough_set_of_ne (Ne.symm hc))

/-- When no block waits any more there is no next scan. -/
theorem ScansNext.lt_scanBound (h : g.ScansNext n b m) : n < g.scanBound := by
  refine Nat.lt_of_not_le fun hn => ?_
  obtain ⟨rest, hp, -⟩ := h
  rw [settle_eq_survey g hn, survey_pending] at hp
  cases hp

/-- A statement is live exactly if a scan found it so. -/
theorem isLive_iff_exists_scan :
    g.liveness.isLive p = true ↔ ∃ n m, g.ScansNext n p.block m ∧ Lit (g.scan m p.block).row p.index := by
  refine (isLive_settle_iff g.scanBound p).trans ⟨fun ⟨n, _, h⟩ => ⟨n, h⟩, fun ⟨n, m, h, hl⟩ => ⟨n, h.lt_scanBound, m, h, hl⟩⟩

/-- A block is left at its end exactly if a scan found it so. -/
theorem fallsThrough_iff_exists_scan :
    g.liveness.fallsThrough b = true ↔ ∃ n m, g.ScansNext n b m ∧ (g.scan m b).here = true := by
  refine (fallsThrough_settle_iff g.scanBound b).trans
    ⟨fun ⟨n, _, h⟩ => ⟨n, h⟩, fun ⟨n, m, h, hl⟩ => ⟨n, h.lt_scanBound, m, h, hl⟩⟩

/-! ## What waits is scanned -/

/-- A block that waits goes on waiting until it is scanned, and in the end none waits. -/
theorem exists_scan_of_mem_pending (h : b ∈ (g.settle n g.unscanned).marks.pending) :
    ∃ k ≥ n, ∃ m, g.ScansNext k b m := by
  have hlater : ∀ k ≥ n, b ∈ (g.settle k g.unscanned).marks.pending ∨ ∃ j ≥ n, ∃ m, g.ScansNext j b m := by
    intro k hk
    induction hk with
    | refl => exact .inl h
    | @step k hk ih =>
      refine ih.elim (fun hb => ?_) .inr
      rcases g.exists_scansNext_or k with ⟨c, m, hnext⟩ | ⟨hnil, -⟩
      · by_cases hc : c = b
        · exact .inr ⟨k, hk, m, hc ▸ hnext⟩
        · rw [hnext.settle_succ]
          obtain ⟨rest, hp, rfl⟩ := hnext
          rw [hp] at hb
          exact .inl ((g.grows_scan _ c).pending b ((List.mem_cons.1 hb).resolve_left (Ne.symm hc)))
      · rw [hnil] at hb
        exact absurd hb List.not_mem_nil
  refine (hlater (n + g.scanBound) (Nat.le_add_right _ _)).resolve_left fun hb => ?_
  rw [settle_eq_survey g (Nat.le_add_left _ _), survey_pending] at hb
  exact List.not_mem_nil hb

/-- Marks that are new behind a scan. -/
theorem grows_settle (g : Graph) (n : Nat) :
    (∀ b ∈ (g.settle (n + 1) g.unscanned).marks.entered,
      b ∈ (g.settle n g.unscanned).marks.entered ∨ b ∈ (g.settle (n + 1) g.unscanned).marks.pending) ∧
    ∀ name ∈ (g.settle (n + 1) g.unscanned).marks.revived, name ∈ (g.settle n g.unscanned).marks.revived ∨
      ∃ q, g.labelAt? q = some name ∧ q.block ∈ (g.settle (n + 1) g.unscanned).marks.pending := by
  rcases g.exists_scansNext_or n with ⟨c, m, hnext⟩ | ⟨-, heq⟩
  · rw [hnext.settle_succ]
    obtain ⟨rest, -, rfl⟩ := hnext
    have hgrow := g.grows_scan { (g.settle n g.unscanned).marks with pending := rest } c
    exact ⟨hgrow.enteredWaits, hgrow.revivedWaits⟩
  · rw [heq]
    exact ⟨fun _ h => .inl h, fun _ h => .inl h⟩

/-- A block that is entered is scanned when it is known to be. -/
theorem exists_scan_of_mem_entered (h : b ∈ (g.settle n g.unscanned).marks.entered) :
    ∃ k m, g.ScansNext k b m ∧ b ∈ m.entered := by
  have hscanned : ∀ n, b ∈ (g.settle n g.unscanned).marks.entered → b ∈ (g.settle n g.unscanned).marks.pending →
      ∃ k m, g.ScansNext k b m ∧ b ∈ m.entered := by
    intro n he hp
    obtain ⟨k, hk, m, hnext⟩ := exists_scan_of_mem_pending hp
    exact ⟨k, m, hnext, (hnext.in_marks hk).entered b he⟩
  induction n with
  | zero => exact hscanned 0 h (List.mem_singleton.1 h ▸ List.mem_cons_self)
  | succ n ih => exact ((g.grows_settle n).1 b h).elim ih (hscanned (n + 1) h)

/-- A name that is revived labels a statement of a block that is scanned when this is known. -/
theorem exists_scan_of_mem_revived {name : String} (h : name ∈ (g.settle n g.unscanned).marks.revived) :
    ∃ q k m, g.labelAt? q = some name ∧ g.ScansNext k q.block m ∧ name ∈ m.revived := by
  induction n with
  | zero => exact absurd h List.not_mem_nil
  | succ n ih =>
    refine ((g.grows_settle n).2 name h).elim ih fun ⟨q, hq, hp⟩ => ?_
    obtain ⟨k, hk, m, hnext⟩ := exists_scan_of_mem_pending hp
    exact ⟨q, k, m, hq, hnext, (hnext.in_marks hk).revived name h⟩

/-! ## What the scans leave -/

/-- A scan of the block of a place comes there when a name is revived. -/
def Hears (g : Graph) (p : Point) (name : String) : Prop :=
  ∃ n m, g.ScansNext n p.block m ∧ name ∈ (g.scanUpTo m p.block p.index).marks.revived

theorem ScansNext.in_survey (h : g.ScansNext n b m) : (g.scan m b).marks.In g.survey.marks :=
  h.scan_in h.lt_scanBound

/-- In the end control comes to an index as it came there in a scan. -/
theorem ScansNext.comesTo (h : g.ScansNext n b m) (hc : g.ComesTo b (b ∈ m.entered) (Lit (g.scan m b).row) i) :
    g.ComesTo b (g.liveness.isEntered b = true) (fun j => g.liveness.isLive ⟨b, j⟩ = true) i := by
  refine hc.imp (fun he => ?_) fun j _ hl => isLive_iff_exists_scan.2 ⟨n, m, h, hl⟩
  exact List.contains_iff_mem.2 (h.in_survey.entered b ((g.grows_scan m b).entered b he))

/-- If control comes to an index in the end, it came there in a scan. -/
theorem exists_scan_of_comesTo
    (hc : g.ComesTo b (g.liveness.isEntered b = true) (fun j => g.liveness.isLive ⟨b, j⟩ = true) i) :
    ∃ n m, g.ScansNext n b m ∧ g.ComesTo b (b ∈ m.entered) (Lit (g.scan m b).row) i := by
  rcases hc with ⟨rfl, he⟩ | ⟨j, x, rfl, hl, hx, hn⟩
  · obtain ⟨n, m, h, he⟩ := exists_scan_of_mem_entered (n := g.scanBound) (List.contains_iff_mem.1 he)
    exact ⟨n, m, h, .inl ⟨rfl, he⟩⟩
  · obtain ⟨n, m, h, hl⟩ := isLive_iff_exists_scan.1 hl
    exact ⟨n, m, h, .inr ⟨j, x, rfl, hl, hx, hn⟩⟩

/-- Every block with a label of a `switch` is scanned. -/
theorem exists_scan_of_isSwitchLabel (hs : g.statement? p = some s) (hw : isSwitchLabel s = true) :
    ∃ n m, g.ScansNext n p.block m := by
  have hmem : p.block ∈ g.switchTargets :=
    List.mem_filter.2 ⟨List.mem_range.2 (block_lt hs), List.any_eq_true.2 ⟨s, mem_statements hs, hw⟩⟩
  obtain ⟨n, -, m, h⟩ := exists_scan_of_mem_pending (n := 0) (List.mem_cons_of_mem g.entry hmem)
  exact ⟨n, m, h⟩

/-- In the end a statement is live if control comes to it from in front, or if it is a label where control starts anew: one of a
`switch`, or one to which a scan came when its name was revived. -/
theorem isLive_iff_comesTo (hs : g.statement? ⟨b, i⟩ = some s) : g.liveness.isLive ⟨b, i⟩ = true ↔
    g.ComesTo b (g.liveness.isEntered b = true) (fun j => g.liveness.isLive ⟨b, j⟩ = true) i ∨ isSwitchLabel s = true ∨
      ∃ name, userLabel? s = some name ∧ g.Hears ⟨b, i⟩ name := by
  constructor
  · intro hl
    obtain ⟨n, m, h, hl⟩ := isLive_iff_exists_scan.1 hl
    rcases (lit_scan_iff hs).1 hl with hc | hw | ⟨name, hn, hr⟩
    · exact .inl (h.comesTo hc)
    · exact .inr (.inl hw)
    · exact .inr (.inr ⟨name, hn, n, m, h, hr⟩)
  · rintro (hc | hw | ⟨name, hn, n, m, h, hr⟩)
    · obtain ⟨n, m, h, hc⟩ := exists_scan_of_comesTo hc
      exact isLive_iff_exists_scan.2 ⟨n, m, h, (lit_scan_iff hs).2 (.inl hc)⟩
    · obtain ⟨n, m, h⟩ := exists_scan_of_isSwitchLabel hs hw
      exact isLive_iff_exists_scan.2 ⟨n, m, h, (lit_scan_iff hs).2 (.inr (.inl hw))⟩
    · exact isLive_iff_exists_scan.2 ⟨n, m, h, (lit_scan_iff hs).2 (.inr (.inr ⟨name, hn, hr⟩))⟩

/-- In the end what live statements do is marked. -/
theorem followed_of_isLive (hs : g.statement? p = some s) (hl : g.liveness.isLive p = true) : g.Followed s g.survey.marks := by
  obtain ⟨n, m, h, hl⟩ := isLive_iff_exists_scan.1 hl
  exact (followed_scan hs hl).mono h.in_survey

end Graph

end FlowLint.Flow
