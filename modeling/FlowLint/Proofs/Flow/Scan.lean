import FlowLint.Proofs.Flow.Arrival

/-!
# Scans of blocks

What one scan of a block does. It notes only statements that control arrives at (`scan_sound`), and it notes all that it has to,
with the marks it leaves, or the block waits to be scanned again (`scan_scanned`): whatever it marks anew waits (`Grows`).
-/

namespace FlowLint.Flow

/-- A list of flags is lit at an index. -/
def Lit (row : List Bool) (i : Nat) : Prop := row[i]? = some true

theorem Lit.lt {row : List Bool} {i : Nat} (h : Lit row i) : i < row.length :=
  (List.getElem?_eq_some_iff.1 h).1

/-- One more flag lights its own index at most. -/
theorem lit_snoc {row : List Bool} {x : Bool} {i : Nat} : Lit (row ++ [x]) i ↔ Lit row i ∨ (i = row.length ∧ x = true) := by
  unfold Lit
  rcases Nat.lt_trichotomy i row.length with h | h | h
  · rw [List.getElem?_append_left h]
    simp [Nat.ne_of_lt h]
  · subst h
    simp
  · rw [List.getElem?_eq_none (by simp; omega), List.getElem?_eq_none (by omega)]
    simp [Nat.ne_of_gt h]

theorem lit_snoc_of_lt {row : List Bool} {x : Bool} {i : Nat} (h : i < row.length) : Lit (row ++ [x]) i ↔ Lit row i :=
  lit_snoc.trans (or_iff_left fun hi => Nat.ne_of_lt h hi.1)

theorem lit_snoc_length {row : List Bool} {x : Bool} : Lit (row ++ [x]) row.length ↔ x = true := by
  rw [lit_snoc, or_iff_right fun hi => Nat.lt_irrefl _ hi.lt]
  exact and_iff_right rfl

/-- In a row of `false` no place is lit. -/
theorem not_lit_map_false {α : Type} (l : List α) (i : Nat) : ¬Lit (l.map fun _ => false) i := by
  intro h
  obtain ⟨x, -, hx⟩ := List.mem_map.1 (List.mem_of_getElem? h)
  cases hx

/-- What is marked in the first case is marked in the second one. -/
structure Marks.In (m m' : Marks) : Prop where
  entered : ∀ b ∈ m.entered, b ∈ m'.entered
  revived : ∀ name ∈ m.revived, name ∈ m'.revived

namespace Graph

variable {g : Graph}

/-- Control is at a statement that is scanned: it was there before, or it starts anew at a label. -/
theorem arrives_iff {sc : Scan} {s : Statement} :
    arrives sc s = true ↔
      sc.here = true ∨ isSwitchLabel s = true ∨ ∃ name, userLabel? s = some name ∧ name ∈ sc.marks.revived := by
  unfold arrives isSwitchLabel userLabel?
  rcases s with ⟨action, span⟩
  cases action with
  | label name kind => cases kind <;> simp
  | _ => simp

/-- A step of a scan: a live jump is followed, and control is not behind it; otherwise control stays as it is. -/
theorem scanStep_cases (sc : Scan) (s : Statement) :
    (arrives sc s = true ∧ s.asJump.isSome = true ∧ g.scanStep sc s = ⟨sc.row ++ [true], false, g.follow s sc.marks⟩) ∨
      ((arrives sc s = false ∨ s.asJump = none) ∧
        g.scanStep sc s = ⟨sc.row ++ [arrives sc s], arrives sc s, sc.marks⟩) := by
  unfold scanStep
  by_cases ha : arrives sc s = true
  · by_cases hj : s.asJump.isSome = true
    · exact .inl ⟨ha, hj, by simp [ha, hj]⟩
    · exact .inr ⟨.inr (by simpa using hj), by simp [ha, hj]⟩
  · exact .inr ⟨.inl (by simpa using ha), by simp [ha]⟩

/-- A step of a scan adds one flag, which says whether control is at the statement. -/
theorem scanStep_row (sc : Scan) (s : Statement) : (g.scanStep sc s).row = sc.row ++ [arrives sc s] := by
  rcases g.scanStep_cases sc s with ⟨ha, -, h⟩ | ⟨-, h⟩
  · rw [h, ha]
  · rw [h]

/-- The scan of a block that has come to an index. -/
def scanUpTo (g : Graph) (m : Marks) (b i : Nat) : Scan :=
  ((g.statements b).take i).foldl g.scanStep ⟨[], m.entered.contains b, m⟩

theorem scanUpTo_succ {m : Marks} {b i : Nat} {s : Statement} (hs : g.statement? ⟨b, i⟩ = some s) :
    g.scanUpTo m b (i + 1) = g.scanStep (g.scanUpTo m b i) s := by
  unfold statement? at hs
  unfold scanUpTo
  rw [List.take_add_one, hs, Option.toList_some, List.foldl_append]
  rfl

theorem scanUpTo_length (g : Graph) (m : Marks) (b : Nat) :
    g.scanUpTo m b (g.statements b).length = (g.statements b).foldl g.scanStep ⟨[], m.entered.contains b, m⟩ := by
  unfold scanUpTo
  rw [List.take_length]

/-- What holds of a scan that has noted nothing, and is kept at each statement, holds wherever the scan comes. -/
theorem scanUpTo_induct {m : Marks} {b i : Nat} {P : Scan → Prop} (h0 : P ⟨[], m.entered.contains b, m⟩)
    (hstep : ∀ sc s, P sc → g.statement? ⟨b, sc.row.length⟩ = some s → P (g.scanStep sc s))
    (hi : i ≤ (g.statements b).length) : P (g.scanUpTo m b i) ∧ (g.scanUpTo m b i).row.length = i := by
  induction i with
  | zero => exact ⟨h0, rfl⟩
  | succ i ih =>
    obtain ⟨h, hlen⟩ := ih (Nat.le_of_succ_le hi)
    have hs : g.statement? ⟨b, i⟩ = some (g.statements b)[i] := List.getElem?_eq_getElem hi
    rw [scanUpTo_succ hs]
    refine ⟨hstep _ _ h (hlen.symm ▸ hs), ?_⟩
    rw [scanStep_row, List.length_append, hlen]
    rfl

/-- What holds of a scan that has noted nothing, and is kept at each statement, holds behind the last one. -/
theorem scan_induct {m : Marks} {b : Nat} {P : Scan → Prop} (h0 : P ⟨[], m.entered.contains b, m⟩)
    (hstep : ∀ sc s, P sc → g.statement? ⟨b, sc.row.length⟩ = some s → P (g.scanStep sc s)) :
    P ((g.statements b).foldl g.scanStep ⟨[], m.entered.contains b, m⟩) ∧
      ((g.statements b).foldl g.scanStep ⟨[], m.entered.contains b, m⟩).row.length = (g.statements b).length := by
  rw [← scanUpTo_length]
  exact scanUpTo_induct h0 hstep (Nat.le_refl _)

/-- A property of marks that every mark keeps is kept when control enters blocks. -/
theorem foldl_enter_induct {P : Marks → Prop} {l : List Nat} {m : Marks} (h0 : P m)
    (hstep : ∀ m, P m → ∀ t ∈ l, P (m.enter t)) : P (l.foldl Marks.enter m) := by
  induction l generalizing m with
  | nil => exact h0
  | cons t l ih =>
    exact ih (hstep m h0 t List.mem_cons_self) fun m hm x hx => hstep m hm x (List.mem_cons_of_mem t hx)

/-! ## Scans are sound -/

/-- Marks that say only what holds: marked blocks are entered, and control arrives at the labels of marked names. -/
structure MarksSound (g : Graph) (m : Marks) : Prop where
  entered : ∀ b ∈ m.entered, Arrives g (.start b)
  revived : ∀ name ∈ m.revived, ∀ q, g.labelAt? q = some name → Arrives g (.statement q)

/-- Marking a block that is entered is sound. -/
theorem MarksSound.enter {m : Marks} {t : Nat} (h : g.MarksSound m) (ht : Arrives g (.start t)) : g.MarksSound (m.enter t) := by
  unfold Marks.enter
  split
  · exact h
  · refine ⟨fun b hb => ?_, h.revived⟩
    rcases List.mem_cons.1 hb with rfl | hb
    · exact ht
    · exact h.entered b hb

/-- Following a jump that control arrives at is sound if names label one statement: the label it revives is the one it lands
on. -/
theorem MarksSound.follow (hu : g.LabelsUnique) {m : Marks} {p : Point} {s : Statement} (h : g.MarksSound m)
    (hp : Arrives g (.statement p)) (hs : g.statement? p = some s) : g.MarksSound (g.follow s m) := by
  unfold Graph.follow
  split
  · exact h
  · rename_i t ht
    split
    · rename_i name hname
      unfold Marks.revive
      split
      · exact h
      · refine ⟨h.entered, fun x hx q hq => ?_⟩
        rcases List.mem_cons.1 hx with rfl | hx
        · obtain ⟨-, q', hq', hn⟩ := landing?_eq_some_iff.1 hname
          obtain rfl := hu q q' x hq hn
          exact .land hp hs ht (landsOn_iff.2 ⟨hq', x, hname, hn⟩)
        · exact h.revived x hx q hq
    · rename_i hnone
      exact h.enter (.enter hp hs ht (landing?_eq_none_iff.1 hnone))

/-- A scan that says only what holds. -/
structure ScanSound (g : Graph) (b : Nat) (sc : Scan) : Prop where
  marks : g.MarksSound sc.marks
  row : ∀ i, Lit sc.row i → Arrives g (.statement ⟨b, i⟩)
  here : sc.here = true → g.ArrivesInFront b sc.row.length

/-- A step of a scan says only what holds. -/
theorem ScanSound.step (hu : g.LabelsUnique) {b : Nat} {sc : Scan} {s : Statement} (h : g.ScanSound b sc)
    (hs : g.statement? ⟨b, sc.row.length⟩ = some s) : g.ScanSound b (g.scanStep sc s) := by
  have hat : arrives sc s = true → Arrives g (.statement ⟨b, sc.row.length⟩) := by
    intro ha
    rcases arrives_iff.1 ha with hh | hw | ⟨name, hn, hr⟩
    · exact arrives_of_inFront (h.here hh) hs
    · exact .switchLabel hs hw
    · exact h.marks.revived name hr _ (labelAt?_eq_some_iff.2 ⟨s, hs, hn⟩)
  have hrow : ∀ x, (x = true → arrives sc s = true) → ∀ i, Lit (sc.row ++ [x]) i → Arrives g (.statement ⟨b, i⟩) := by
    intro x hx i hi
    rcases lit_snoc.1 hi with hi | ⟨rfl, hlit⟩
    · exact h.row i hi
    · exact hat (hx hlit)
  rcases g.scanStep_cases sc s with ⟨ha, -, heq⟩ | ⟨hn, heq⟩
  · rw [heq]
    exact ⟨h.marks.follow hu (hat ha) hs, hrow true fun _ => ha, fun hh => absurd hh Bool.false_ne_true⟩
  · rw [heq]
    refine ⟨h.marks, hrow _ id, fun hh => ?_⟩
    dsimp only at hh
    have hj : s.asJump = none := hn.resolve_left (by rw [hh]; simp)
    rw [List.length_append]
    exact .inr ⟨_, s, rfl, hat hh, hs, hj⟩

/-- A scan with sound marks says only what holds, and marks only blocks that are entered and labels that are revived. -/
theorem scan_sound (hu : g.LabelsUnique) {m : Marks} (h : g.MarksSound m) (b : Nat) :
    g.MarksSound (g.scan m b).marks ∧ (∀ i, Lit (g.scan m b).row i → Arrives g (.statement ⟨b, i⟩)) ∧
      ((g.scan m b).here = true → Arrives g (.finish b)) := by
  have h0 : g.ScanSound b ⟨[], m.entered.contains b, m⟩ := by
    refine ⟨h, fun i hi => absurd hi.lt (Nat.not_lt_zero i), fun hh => .inl ⟨rfl, ?_⟩⟩
    exact h.entered b (List.contains_iff_mem.1 hh)
  obtain ⟨hsc, hlen⟩ := scan_induct (P := g.ScanSound b) h0 fun sc s hp hs => hp.step hu hs
  unfold scan
  dsimp only
  split
  · rename_i hh
    have hfin : Arrives g (.finish b) := arrives_finish_of_inFront (hlen ▸ hsc.here hh)
    refine ⟨?_, hsc.row, fun _ => hfin⟩
    exact foldl_enter_induct hsc.marks fun m hm t ht => hm.enter (.successor hfin ht)
  · rename_i hh
    exact ⟨hsc.marks, hsc.row, fun h => absurd h hh⟩

/-! ## What is marked anew waits -/

/-- Marks that grow: no mark is lost, an entered block that is new waits, and so does a block with a label of a revived name that
is new. -/
structure Grows (g : Graph) (m m' : Marks) : Prop extends m.In m' where
  pending : ∀ b ∈ m.pending, b ∈ m'.pending
  enteredWaits : ∀ b ∈ m'.entered, b ∈ m.entered ∨ b ∈ m'.pending
  revivedWaits : ∀ name ∈ m'.revived, name ∈ m.revived ∨ ∃ q, g.labelAt? q = some name ∧ q.block ∈ m'.pending

theorem Grows.refl (m : Marks) : g.Grows m m :=
  ⟨⟨fun _ h => h, fun _ h => h⟩, fun _ h => h, fun _ h => .inl h, fun _ h => .inl h⟩

theorem Grows.trans {m m' m'' : Marks} (h : g.Grows m m') (h' : g.Grows m' m'') : g.Grows m m'' := by
  refine ⟨⟨fun b hb => h'.entered b (h.entered b hb), fun x hx => h'.revived x (h.revived x hx)⟩,
    fun b hb => h'.pending b (h.pending b hb), fun b hb => ?_, fun x hx => ?_⟩
  · rcases h'.enteredWaits b hb with hb | hb
    · exact (h.enteredWaits b hb).imp_right (h'.pending b)
    · exact .inr hb
  · rcases h'.revivedWaits x hx with hx | hx
    · exact (h.revivedWaits x hx).imp_right fun ⟨q, hn, hq⟩ => ⟨q, hn, h'.pending _ hq⟩
    · exact .inr hx

/-- An entered block is marked, and waits if it is new. -/
theorem grows_enter (m : Marks) (t : Nat) : g.Grows m (m.enter t) ∧ t ∈ (m.enter t).entered := by
  unfold Marks.enter
  split
  · rename_i hc
    exact ⟨.refl m, List.contains_iff_mem.1 hc⟩
  · refine ⟨⟨⟨fun b hb => List.mem_cons_of_mem _ hb, fun x hx => hx⟩, fun b hb => List.mem_append_left _ hb,
      fun b hb => ?_, fun x hx => .inl hx⟩, List.mem_cons_self⟩
    rcases List.mem_cons.1 hb with rfl | hb
    · exact .inr (List.mem_append_right _ List.mem_cons_self)
    · exact .inl hb

/-- A revived name is marked, and the block with its label waits if the name is new. -/
theorem grows_revive (m : Marks) {name : String} {q : Point} (hq : g.labelAt? q = some name) :
    g.Grows m (m.revive name q.block) ∧ name ∈ (m.revive name q.block).revived := by
  unfold Marks.revive
  split
  · rename_i hc
    exact ⟨.refl m, List.contains_iff_mem.1 hc⟩
  · refine ⟨⟨⟨fun b hb => hb, fun x hx => List.mem_cons_of_mem _ hx⟩, fun b hb => List.mem_append_left _ hb,
      fun b hb => .inl hb, fun x hx => ?_⟩, List.mem_cons_self⟩
    rcases List.mem_cons.1 hx with rfl | hx
    · exact .inr ⟨q, hq, List.mem_append_right _ List.mem_cons_self⟩
    · exact .inl hx

/-- What a jump does is marked: its landing is revived, or its target is entered. -/
def Followed (g : Graph) (s : Statement) (m : Marks) : Prop :=
  ∀ t, g.destination? s = some t →
    (∀ name, g.landing? s t = some name → name ∈ m.revived) ∧ (g.landing? s t = none → t ∈ m.entered)

theorem Followed.mono {s : Statement} {m m' : Marks} (h : g.Followed s m) (hin : m.In m') : g.Followed s m' := by
  intro t ht
  exact ⟨fun name hn => hin.revived name ((h t ht).1 name hn), fun hn => hin.entered t ((h t ht).2 hn)⟩

/-- Statements that are no jumps have nothing to mark. -/
theorem followed_of_asJump_eq_none {s : Statement} {m : Marks} (h : s.asJump = none) : g.Followed s m := by
  intro t ht
  have := asJump_of_destination? ht
  rw [h] at this
  cases this

/-- Following a jump marks what it does. -/
theorem grows_follow (s : Statement) (m : Marks) :
    g.Grows m (g.follow s m) ∧ g.Followed s (g.follow s m) := by
  unfold Graph.follow
  split
  · rename_i hd
    exact ⟨.refl m, fun t ht => by rw [hd] at ht; cases ht⟩
  · rename_i t ht
    split
    · rename_i name hname
      obtain ⟨-, q, rfl, hq⟩ := landing?_eq_some_iff.1 hname
      obtain ⟨hg, hm⟩ := grows_revive m hq
      refine ⟨hg, fun t' ht' => ?_⟩
      obtain rfl := Option.some.inj (ht.symm.trans ht')
      rw [hname]
      refine ⟨fun x hx => Option.some.inj hx ▸ hm, fun h => ?_⟩
      cases h
    · rename_i hnone
      obtain ⟨hg, hm⟩ := grows_enter (g := g) m t
      refine ⟨hg, fun t' ht' => ?_⟩
      obtain rfl := Option.some.inj (ht.symm.trans ht')
      rw [hnone]
      refine ⟨fun x hx => ?_, fun _ => hm⟩
      cases hx

/-- A step of a scan only adds marks. -/
theorem grows_scanStep (sc : Scan) (s : Statement) : g.Grows sc.marks (g.scanStep sc s).marks := by
  rcases g.scanStep_cases sc s with ⟨-, -, h⟩ | ⟨-, h⟩
  · rw [h]
    exact (grows_follow s sc.marks).1
  · rw [h]
    exact .refl _

/-- Entering blocks marks them all. -/
theorem grows_foldl_enter (l : List Nat) (m : Marks) :
    g.Grows m (l.foldl Marks.enter m) ∧ ∀ t ∈ l, t ∈ (l.foldl Marks.enter m).entered := by
  induction l generalizing m with
  | nil => exact ⟨.refl m, fun t ht => absurd ht List.not_mem_nil⟩
  | cons t l ih =>
    obtain ⟨h1, hm⟩ := grows_enter (g := g) m t
    obtain ⟨h2, hl⟩ := ih (m.enter t)
    refine ⟨h1.trans h2, fun x hx => ?_⟩
    rcases List.mem_cons.1 hx with rfl | hx
    · exact h2.entered x hm
    · exact hl x hx

/-! ## Scans leave nothing out -/

/-- The first `n` statements of a block are scanned to the end: control that comes to one from in front is noted, so are the
labels where it starts anew, what live jumps do is marked, and it is known if control comes behind them. A label revived in
the meantime may be left out if its block waits. -/
structure Scanned (g : Graph) (b n : Nat) (entered : Prop) (live : Nat → Prop) (here : Prop) (m : Marks) : Prop where
  inFront : ∀ i < n, g.ComesTo b entered live i → live i
  switchLabel : ∀ i < n, ∀ s, g.statement? ⟨b, i⟩ = some s → isSwitchLabel s = true → live i
  userLabel : ∀ i < n, ∀ name, g.labelAt? ⟨b, i⟩ = some name → name ∈ m.revived → live i ∨ b ∈ m.pending
  followed : ∀ i s, live i → g.statement? ⟨b, i⟩ = some s → g.Followed s m
  behind : g.ComesTo b entered live n → here

/-- What is scanned stays so while marks grow, unless the block waits again. -/
theorem Scanned.grow (hu : g.LabelsUnique) {b n : Nat} {entered entered' : Prop} {live : Nat → Prop} {here : Prop}
    {m m' : Marks} (h : g.Scanned b n entered live here m) (hg : g.Grows m m') (hentered : entered' → entered) :
    g.Scanned b n entered' live here m' := by
  refine ⟨fun i hi hc => h.inFront i hi (hc.imp hentered fun _ _ hj => hj), h.switchLabel, fun i hi name hn hr => ?_,
    fun i s hi hs => (h.followed i s hi hs).mono hg.toIn, fun hc => h.behind (hc.imp hentered fun _ _ hj => hj)⟩
  rcases hg.revivedWaits name hr with hr | ⟨q, hq, hwait⟩
  · exact (h.userLabel i hi name hn hr).imp_right (hg.pending b)
  · obtain rfl := hu q _ name hq hn
    exact .inr hwait

/-- What is scanned in a block that does not wait stays so whatever else waits. -/
theorem Scanned.of_not_waiting {b n : Nat} {entered : Prop} {live : Nat → Prop} {here : Prop} {m : Marks} {rest : List Nat}
    (h : g.Scanned b n entered live here m) (hb : b ∉ m.pending) :
    g.Scanned b n entered live here { m with pending := rest } :=
  ⟨h.inFront, h.switchLabel, fun i hi name hn hr => .inl ((h.userLabel i hi name hn hr).resolve_right hb), h.followed, h.behind⟩

/-- If control is at a statement that is scanned, what the statement does is marked, and control comes behind it unless it is a
jump. -/
theorem scanStep_of_arrives {sc : Scan} {s : Statement} (ha : arrives sc s = true) :
    g.Followed s (g.scanStep sc s).marks ∧ (s.asJump = none → (g.scanStep sc s).here = true) := by
  rcases g.scanStep_cases sc s with ⟨-, hj, h⟩ | ⟨hn, h⟩
  · rw [h]
    refine ⟨(grows_follow s sc.marks).2, fun hnone => ?_⟩
    rw [hnone] at hj
    cases hj
  · rw [h]
    refine ⟨followed_of_asJump_eq_none (hn.resolve_left ?_), fun _ => ha⟩
    rw [ha]
    simp

/-- One more statement is scanned by a step. -/
theorem Scanned.step (hu : g.LabelsUnique) {b : Nat} {entered : Prop} {sc : Scan} {s : Statement}
    (h : g.Scanned b sc.row.length entered (Lit sc.row) (sc.here = true) sc.marks)
    (hs : g.statement? ⟨b, sc.row.length⟩ = some s) :
    g.Scanned b (g.scanStep sc s).row.length entered (Lit (g.scanStep sc s).row) ((g.scanStep sc s).here = true)
      (g.scanStep sc s).marks := by
  have hgrow := g.grows_scanStep sc s
  have hrow := g.scanStep_row sc s
  have hat := @scanStep_of_arrives g sc s
  generalize g.scanStep sc s = sc' at hgrow hrow hat
  have hlen : sc'.row.length = sc.row.length + 1 := by rw [hrow]; simp
  have hold : ∀ i < sc.row.length, (Lit sc'.row i ↔ Lit sc.row i) := by
    intro i hi
    rw [hrow, lit_snoc_of_lt hi]
  have hnew : Lit sc'.row sc.row.length ↔ arrives sc s = true := by rw [hrow, lit_snoc_length]
  have hg := h.grow hu hgrow id
  refine ⟨fun i hi hc => ?_, fun i hi x hx hw => ?_, fun i hi name hn hr => ?_, fun i x hi hx => ?_, fun hc => ?_⟩
  · have hc' : i ≤ sc.row.length → g.ComesTo b entered (Lit sc.row) i := fun hle =>
      hc.imp id fun j hj => (hold j (by omega)).1
    by_cases hlt : i < sc.row.length
    · exact (hold i hlt).2 (h.inFront i hlt (hc' (Nat.le_of_lt hlt)))
    · obtain rfl : i = sc.row.length := by omega
      exact hnew.2 (arrives_iff.2 (.inl (h.behind (hc' (Nat.le_refl _)))))
  · by_cases hlt : i < sc.row.length
    · exact (hold i hlt).2 (h.switchLabel i hlt x hx hw)
    · obtain rfl : i = sc.row.length := by omega
      obtain rfl := Option.some.inj (hs.symm.trans hx)
      exact hnew.2 (arrives_iff.2 (.inr (.inl hw)))
  · by_cases hlt : i < sc.row.length
    · exact (hg.userLabel i hlt name hn hr).imp_left (hold i hlt).2
    · obtain rfl : i = sc.row.length := by omega
      obtain ⟨x, hx, hx'⟩ := labelAt?_eq_some_iff.1 hn
      obtain rfl := Option.some.inj (hs.symm.trans hx)
      rcases hgrow.revivedWaits name hr with hr | ⟨q, hq, hwait⟩
      · exact .inl (hnew.2 (arrives_iff.2 (.inr (.inr ⟨name, hx', hr⟩))))
      · obtain rfl := hu q _ name hq hn
        exact .inr hwait
  · by_cases hlt : i < sc.row.length
    · exact hg.followed i x ((hold i hlt).1 hi) hx
    · have hi' := hi.lt
      obtain rfl : i = sc.row.length := by omega
      obtain rfl := Option.some.inj (hs.symm.trans hx)
      exact (hat (hnew.1 hi)).1
  · rw [hlen] at hc
    rcases hc with ⟨h0, -⟩ | ⟨j, x, hj, hl, hx, hjump⟩
    · cases h0
    · obtain rfl : j = sc.row.length := by omega
      obtain rfl := Option.some.inj (hs.symm.trans hx)
      exact (hat (hnew.1 hl)).2 hjump

/-- A scan only adds marks, and scans its block to the end. -/
theorem scan_scanned (hu : g.LabelsUnique) (m : Marks) (b : Nat) :
    g.Grows m (g.scan m b).marks ∧
      (g.scan m b).row.length = (g.statements b).length ∧
      g.Scanned b (g.statements b).length (b ∈ m.entered) (Lit (g.scan m b).row) ((g.scan m b).here = true)
        (g.scan m b).marks ∧
      ((g.scan m b).here = true → ∀ t ∈ g.successors b, t ∈ (g.scan m b).marks.entered) := by
  let P : Scan → Prop := fun sc =>
    g.Grows m sc.marks ∧ g.Scanned b sc.row.length (b ∈ m.entered) (Lit sc.row) (sc.here = true) sc.marks
  have h0 : P ⟨[], m.entered.contains b, m⟩ := by
    refine ⟨.refl m, fun i hi => absurd hi (Nat.not_lt_zero i), fun i hi => absurd hi (Nat.not_lt_zero i),
      fun i hi => absurd hi (Nat.not_lt_zero i), fun i s hi => absurd hi.lt (Nat.not_lt_zero i), fun hc => ?_⟩
    rcases hc with ⟨-, hb⟩ | ⟨j, s, hj, -⟩
    · exact List.contains_iff_mem.2 hb
    · cases hj
  obtain ⟨⟨hgrow, hsc⟩, hlen⟩ := scan_induct (P := P) h0 fun sc s hp hs =>
    ⟨hp.1.trans (g.grows_scanStep sc s), hp.2.step hu hs⟩
  rw [hlen] at hsc
  unfold scan
  dsimp only
  split
  · obtain ⟨hg, hm⟩ := grows_foldl_enter (g := g) (g.successors b)
      ((g.statements b).foldl g.scanStep ⟨[], m.entered.contains b, m⟩).marks
    exact ⟨hgrow.trans hg, hlen, hsc.grow hu hg id, fun _ => hm⟩
  · rename_i hh
    exact ⟨hgrow, hlen, hsc, fun h => absurd h hh⟩

end Graph

end FlowLint.Flow
