import Mathlib.Data.List.Induction
import FlowLint.Check.UnreachableCode
import FlowLint.Proofs.Flow.DeadRegion
import FlowLint.Proofs.Flow.Faults
import FlowLint.Proofs.Flow.Rescan

/-!
# Functions without their dead code

Once the dead code of a function is removed nothing is left to report (`trim_reports_nothing`). The function still has no faults,
and all that remains is as live as before: no scan is at a dead statement, so that a scan without it finds the same wherever it
comes (`trim_scanUpTo`), scan for scan (`trim_settle`). Labels stay, since they carry no code, so that jumps land where they did.
-/

namespace FlowLint.Flow

/-! ## The elements at some indices -/

section

variable {α : Type} (keep : Nat → Bool)

/-- The elements of a list at the indices that are kept. -/
def keepAt (l : List α) : List α := (l.zipIdx.filter fun x => keep x.2).map Prod.fst

/-- How many of the indices in front of one are kept. -/
def rank (i : Nat) : Nat := (List.range i).countP keep

variable {keep}

theorem keepAt_snoc (l : List α) (a : α) : keepAt keep (l ++ [a]) = keepAt keep l ++ if keep l.length then [a] else [] := by
  simp only [keepAt, List.zipIdx_append, List.filter_append, List.map_append, List.zipIdx_singleton, Nat.zero_add,
    List.filter_cons, List.filter_nil]
  split <;> rfl

theorem rank_succ (i : Nat) : rank keep (i + 1) = rank keep i + if keep i then 1 else 0 := by
  simp only [rank, List.range_succ, List.countP_append, List.countP_singleton]

theorem rank_mono {i j : Nat} (h : i ≤ j) : rank keep i ≤ rank keep j := (List.range_sublist.2 h).countP_le

theorem length_keepAt (l : List α) : (keepAt keep l).length = rank keep l.length := by
  induction l using List.reverseRecOn with
  | nil => rfl
  | append_singleton l a ih =>
    rw [keepAt_snoc, List.length_append, List.length_append, List.length_singleton, rank_succ, ih]
    split <;> rfl

/-- What is kept is found behind what is kept in front of it. -/
theorem getElem?_keepAt {i : Nat} (hi : keep i = true) (l : List α) : (keepAt keep l)[rank keep i]? = l[i]? := by
  induction l using List.reverseRecOn with
  | nil => rfl
  | append_singleton l a ih =>
    rw [keepAt_snoc]
    rcases Nat.lt_trichotomy i l.length with h | rfl | h
    · have hnext : rank keep i + 1 ≤ rank keep l.length := by
        have hle : rank keep (i + 1) ≤ rank keep l.length := rank_mono h
        rwa [rank_succ, if_pos hi] at hle
      rw [List.getElem?_append_left h, ← ih, List.getElem?_append_left]
      rwa [length_keepAt]
    · rw [if_pos hi, ← length_keepAt, List.getElem?_concat_length, List.getElem?_concat_length]
    · have hlen : (l ++ [a]).length ≤ i := by rwa [List.length_append, List.length_singleton]
      rw [← keepAt_snoc, List.getElem?_eq_none hlen, List.getElem?_eq_none]
      rw [length_keepAt]
      exact rank_mono hlen

/-- Everything in the list that remains was kept. -/
theorem exists_of_getElem?_keepAt {l : List α} {j : Nat} {a : α} (h : (keepAt keep l)[j]? = some a) :
    ∃ i, keep i = true ∧ l[i]? = some a ∧ rank keep i = j := by
  induction l using List.reverseRecOn with
  | nil => cases h
  | append_singleton l x ih =>
    rw [keepAt_snoc] at h
    rcases Nat.lt_or_ge j (keepAt keep l).length with hj | hj
    · rw [List.getElem?_append_left hj] at h
      obtain ⟨i, hi, hl, hr⟩ := ih h
      exact ⟨i, hi, (List.getElem?_append_left (List.getElem?_eq_some_iff.1 hl).1).trans hl, hr⟩
    · rw [List.getElem?_append_right hj] at h
      split at h
      · rename_i hkeep
        obtain ⟨hlast, rfl⟩ := List.getElem?_eq_some_iff.1 h
        refine ⟨l.length, hkeep, by simp, ?_⟩
        rw [← length_keepAt]
        simp only [List.length_singleton] at hlast
        omega
      · cases h

theorem keepAt_subset (l : List α) : keepAt keep l ⊆ l := by
  intro a ha
  obtain ⟨j, hj⟩ := List.getElem?_of_mem ha
  obtain ⟨i, -, hi, -⟩ := exists_of_getElem?_keepAt hj
  exact List.mem_of_getElem? hi

/-- What is always kept is in the list that remains if it was in the list. -/
theorem any_keepAt {l : List α} {p : α → Bool} (h : ∀ i a, l[i]? = some a → p a = true → keep i = true) :
    (keepAt keep l).any p = l.any p := by
  rw [Bool.eq_iff_iff, List.any_eq_true, List.any_eq_true]
  constructor
  · rintro ⟨a, ha, hp⟩
    exact ⟨a, keepAt_subset l ha, hp⟩
  · rintro ⟨a, ha, hp⟩
    obtain ⟨i, hi⟩ := List.getElem?_of_mem ha
    exact ⟨a, List.mem_of_getElem? ((getElem?_keepAt (h i a hi hp) l).trans hi), hp⟩

theorem keepAt_map {β : Type} (f : α → β) (l : List α) : keepAt keep (l.map f) = (keepAt keep l).map f := by
  induction l using List.reverseRecOn with
  | nil => rfl
  | append_singleton l a ih =>
    rw [List.map_append, List.map_singleton, keepAt_snoc, keepAt_snoc, ih, List.length_map, List.map_append]
    split <;> rfl

end

/-- A scan with the flags of the statements that are kept. -/
def Scan.thin (sc : Scan) (keep : Nat → Bool) : Scan := { sc with row := keepAt keep sc.row }

/-- A survey with the flags of the statements that are kept. -/
def Survey.thin (s : Survey) (keep : Nat → Nat → Bool) : Survey :=
  { s with rows := s.rows.mapIdx fun b row => keepAt (keep b) row }

namespace Graph

variable {g : Graph} {m : Marks} {b i n : Nat} {s : Statement} {p : Point}

/-! ## The function without its dead code -/

/-- Whether the statement at an index of a block is no dead code. -/
def stays (g : Graph) (b i : Nat) : Bool := !(g.liveness.deadCode g).contains ⟨b, i⟩

/-- A block without its dead code. -/
def trimmedBlock (g : Graph) (b : Nat) (x : Block) : Block := { x with statements := keepAt (g.stays b) x.statements }

/-- The function without its dead code. -/
def trimmedFunction (g : Graph) : Function := { g.function with blocks := g.function.blocks.mapIdx g.trimmedBlock }

/-- Where a statement stands when the dead code in front of it is removed. -/
def trimmed (g : Graph) (p : Point) : Point := ⟨p.block, rank (g.stays p.block) p.index⟩

theorem stays_iff_not_mem : g.stays b i = true ↔ ⟨b, i⟩ ∉ g.liveness.deadCode g := by
  rw [stays, Bool.not_eq_true', ← Bool.not_eq_true, List.contains_iff_mem]

/-- What is live or carries no code stays. -/
theorem stays_iff (hs : g.statement? ⟨b, i⟩ = some s) :
    g.stays b i = true ↔ g.liveness.isLive ⟨b, i⟩ = true ∨ s.isCode = false := by
  rw [stays_iff_not_mem, Liveness.mem_deadCode]
  constructor
  · intro h
    by_cases hl : g.liveness.isLive ⟨b, i⟩ = true
    · exact .inl hl
    · refine .inr (Bool.eq_false_iff.2 fun hc => h ⟨Bool.eq_false_iff.2 hl, s, hs, hc⟩)
  · rintro h ⟨hl, x, hx, hc⟩
    obtain rfl := Option.some.inj (hs.symm.trans hx)
    simp [hl, hc] at h

theorem stays_of_not_isCode (hs : g.statement? ⟨b, i⟩ = some s) (hc : s.isCode = false) : g.stays b i = true :=
  (stays_iff hs).2 (.inr hc)

/-- The blocks keep their numbers. -/
theorem trimmedFunction_ids (g : Graph) : g.trimmedFunction.blocks.map Block.id = g.function.blocks.map Block.id :=
  ids_mapIdx (fun b x => (rfl : (g.trimmedBlock b x).id = x.id)) g.function.blocks

/-- The function is still without faults. -/
theorem fault?_trimmedFunction (g : Graph) : fault? g.trimmedFunction = none :=
  fault?_mapIdx (fun b x => (rfl : (g.trimmedBlock b x).id = x.id)) (fun _ x => List.Subset.refl x.successors)
    (fun _ x => keepAt_subset x.statements) g.faultless

/-- The graph of the function without its dead code. -/
def trim (g : Graph) : Graph := ⟨g.trimmedFunction, g.fault?_trimmedFunction⟩

theorem trim_size (g : Graph) : g.trim.size = g.size := List.length_mapIdx

theorem trim_entry (g : Graph) : g.trim.entry = g.entry := entry_congr g.trimmedFunction_ids rfl

theorem trim_statements (g : Graph) (b : Nat) : g.trim.statements b = keepAt (g.stays b) (g.statements b) := by
  unfold statements
  rw [show g.trim.function = g.trimmedFunction from rfl, trimmedFunction, List.getElem?_mapIdx]
  cases g.function.blocks[b]? <;> rfl

theorem trim_successors (g : Graph) (b : Nat) : g.trim.successors b = g.successors b := by
  unfold successors
  rw [show g.trim.function = g.trimmedFunction from rfl, funext (position?_congr g.trimmedFunction_ids), trimmedFunction,
    List.getElem?_mapIdx]
  cases g.function.blocks[b]? <;> rfl

/-- What carries no code is still in its block. -/
theorem trim_any {test : Statement → Bool} (htest : ∀ s, test s = true → s.isCode = false) (b : Nat) :
    (g.trim.statements b).any test = (g.statements b).any test := by
  rw [trim_statements]
  exact any_keepAt fun i s hs ht => stays_of_not_isCode hs (htest s ht)

theorem isCode_of_isUserLabel {name : String} (h : isUserLabel name s = true) : s.isCode = false := by
  unfold Statement.isCode
  rw [userLabel?_eq_some_iff.1 (isUserLabel_iff.1 h)]

theorem isCode_of_isSwitchLabel (h : isSwitchLabel s = true) : s.isCode = false := by
  unfold isSwitchLabel at h
  unfold Statement.isCode
  split at h <;> simp_all

/-- Jumps go where they did, and land on the same labels. -/
theorem trim_follow (g : Graph) (s : Statement) (m : Marks) : g.trim.follow s m = g.follow s m := by
  have hdestination : g.trim.destination? s = g.destination? s := destination?_congr g.trimmedFunction_ids s
  unfold follow landing?
  simp only [hdestination, trim_any fun _ => isCode_of_isUserLabel]

theorem trim_scanStep (g : Graph) : g.trim.scanStep = g.scanStep := by
  funext sc s
  unfold scanStep
  rw [trim_follow]

theorem trim_switchTargets (g : Graph) : g.trim.switchTargets = g.switchTargets := by
  unfold switchTargets
  simp only [trim_size, trim_any fun _ => isCode_of_isSwitchLabel]

/-! ## Scans -/

/-- A statement that is kept is scanned as before. -/
theorem scanStep_thin {keep : Nat → Bool} {sc : Scan} (h : keep sc.row.length = true) (s : Statement) :
    g.scanStep (sc.thin keep) s = (g.scanStep sc s).thin keep := by
  have hrow : ∀ x, keepAt keep (sc.row ++ [x]) = keepAt keep sc.row ++ [x] := fun x => by rw [keepAt_snoc, if_pos h]
  have harrives : arrives (sc.thin keep) s = arrives sc s := rfl
  unfold scanStep
  rw [harrives]
  dsimp only
  cases arrives sc s && s.asJump.isSome with
  | true => exact congrArg (Scan.mk · false (g.follow s sc.marks)) (hrow true).symm
  | false => exact congrArg (Scan.mk · (arrives sc s) sc.marks) (hrow (arrives sc s)).symm

/-- A statement that is not kept leaves no trace if no scan is at it. -/
theorem scanStep_thin_of_not_kept {keep : Nat → Bool} {sc : Scan} (h : keep sc.row.length = false) (hhere : sc.here = false)
    (ha : arrives sc s = false) : (g.scanStep sc s).thin keep = sc.thin keep := by
  unfold scanStep
  simp only [ha, Bool.false_and, Bool.false_eq_true, if_false, Scan.thin, hhere, keepAt_snoc, h, List.append_nil]

/-- No scan is at dead code. -/
theorem ScansNext.not_at_dead (h : g.ScansNext n b m) (hs : g.statement? ⟨b, i⟩ = some s) (hd : g.stays b i = false) :
    (g.scanUpTo m b i).here = false ∧ arrives (g.scanUpTo m b i) s = false := by
  have ha : ¬arrives (g.scanUpTo m b i) s = true := by
    intro ha
    have hlive : g.liveness.isLive ⟨b, i⟩ = true := isLive_iff_exists_scan.2 ⟨n, m, h, (lit_scan_iff_arrives hs).2 ha⟩
    rw [(stays_iff hs).2 (.inl hlive)] at hd
    cases hd
  exact ⟨Bool.eq_false_iff.2 fun hh => ha (arrives_iff.2 (.inl hh)), Bool.eq_false_iff.2 ha⟩

/-- A scan of a block without its dead code comes where the scan of the block comes. -/
theorem trim_scanUpTo (h : g.ScansNext n b m) (hi : i ≤ (g.statements b).length) :
    (keepAt (g.stays b) ((g.statements b).take i)).foldl g.scanStep ⟨[], m.entered.contains b, m⟩ =
      (g.scanUpTo m b i).thin (g.stays b) := by
  induction i with
  | zero => rfl
  | succ i ih =>
    have hs : g.statement? ⟨b, i⟩ = some (g.statements b)[i] := List.getElem?_eq_getElem hi
    generalize (g.statements b)[i] = s at hs
    have hlen : ((g.statements b).take i).length = i := List.length_take_of_le (Nat.le_of_succ_le hi)
    have hrow : (g.scanUpTo m b i).row.length = i := length_scanUpTo_row (Nat.le_of_succ_le hi)
    have htake : (g.statements b).take (i + 1) = (g.statements b).take i ++ [s] := by
      rw [List.take_add_one, show (g.statements b)[i]? = some s from hs, Option.toList_some]
    rw [htake, keepAt_snoc, hlen, List.foldl_append, ih (Nat.le_of_succ_le hi), scanUpTo_succ hs]
    cases hd : g.stays b i with
    | true => exact scanStep_thin (hrow.symm ▸ hd) s
    | false =>
      -- control is not at dead code, so that the scan only adds a flag, which is not kept
      obtain ⟨hhere, ha⟩ := h.not_at_dead hs hd
      exact (scanStep_thin_of_not_kept (hrow.symm ▸ hd) hhere ha).symm

/-- A scan of a block without its dead code finds the same of what is left. -/
theorem trim_scan (h : g.ScansNext n b m) : g.trim.scan m b = (g.scan m b).thin (g.stays b) := by
  have hfold := trim_scanUpTo h (Nat.le_refl _)
  rw [List.take_length, scanUpTo_length] at hfold
  unfold scan
  rw [trim_scanStep, trim_statements, trim_successors, hfold]
  dsimp only [Scan.thin]
  split <;> rfl

theorem trim_unscanned (g : Graph) : g.trim.unscanned = g.unscanned.thin g.stays := by
  have hrows : (List.range g.size).map (fun b => (keepAt (g.stays b) (g.statements b)).map fun _ => false) =
      ((List.range g.size).map fun b => (g.statements b).map fun _ => false).mapIdx fun b row => keepAt (g.stays b) row := by
    refine List.ext_getElem? fun b => ?_
    rw [List.getElem?_mapIdx, List.getElem?_map, List.getElem?_map, Option.map_map]
    rcases Nat.lt_or_ge b g.size with hb | hb
    · rw [List.getElem?_range hb]
      exact congrArg some (keepAt_map _ _).symm
    · rw [List.getElem?_eq_none (by simpa using hb)]
      rfl
  unfold unscanned Survey.thin
  simp only [trim_size, trim_entry, trim_switchTargets, trim_statements, hrows]

/-- Scan for scan the graph without its dead code is surveyed as the graph is. -/
theorem trim_settle (g : Graph) (n : Nat) :
    g.trim.settle n g.trim.unscanned = (g.settle n g.unscanned).thin g.stays := by
  induction n with
  | zero => exact g.trim_unscanned
  | succ n ih =>
    rw [settle_succ, ih]
    rcases g.exists_scansNext_or n with ⟨b, m, hnext⟩ | ⟨hnil, heq⟩
    · have hscan := trim_scan hnext
      rw [hnext.settle_succ]
      obtain ⟨rest, hp, rfl⟩ := hnext
      simp only [advance, Survey.thin, hp, hscan, Scan.thin, List.mapIdx_set]
    · rw [heq]
      simp only [advance, Survey.thin, hnil]

/-- When no block waits any more the graph without its dead code is surveyed as the graph is. -/
theorem trim_survey (g : Graph) : g.trim.survey = g.survey.thin g.stays := by
  -- the bounds differ if labels do, so that both worklists are run until either bound is reached
  have h := g.trim_settle (g.trim.scanBound + g.scanBound)
  rwa [settle_eq_survey _ (Nat.le_add_right _ _), settle_eq_survey _ (Nat.le_add_left _ _)] at h

/-! ## Nothing is left to report -/

/-- What stays has its place in the graph without the dead code, and is as live. -/
theorem trim_statement? (hs : g.statement? p = some s) (hstays : g.stays p.block p.index = true) :
    g.trim.statement? (g.trimmed p) = some s ∧ g.trim.liveness.isLive (g.trimmed p) = g.liveness.isLive p := by
  constructor
  · unfold statement?
    rw [trim_statements]
    exact (getElem?_keepAt hstays _).trans hs
  · unfold liveness
    rw [trim_survey]
    unfold Liveness.isLive
    simp only [Survey.liveness, Survey.thin, trimmed, List.getElem?_mapIdx]
    cases g.survey.rows[p.block]? with
    | none => rfl
    | some row => exact congrArg (Option.getD · false) (getElem?_keepAt hstays row)

/-- What is in the graph without the dead code has stayed. -/
theorem exists_of_trim_statement? {q : Point} (hs : g.trim.statement? q = some s) :
    ∃ p, g.statement? p = some s ∧ g.stays p.block p.index = true ∧ g.trimmed p = q := by
  unfold statement? at hs
  rw [trim_statements] at hs
  obtain ⟨i, hstays, hi, hr⟩ := exists_of_getElem?_keepAt hs
  exact ⟨⟨q.block, i⟩, hi, hstays, by rw [trimmed, hr]⟩

/-- Nothing in the graph without the dead code is dead code. -/
theorem trim_deadCode (g : Graph) : g.trim.liveness.deadCode g.trim = [] := by
  refine List.eq_nil_iff_forall_not_mem.2 fun q hq => ?_
  obtain ⟨hdead, s, hs, hc⟩ := Liveness.mem_deadCode.1 hq
  obtain ⟨p, hp, hstays, rfl⟩ := exists_of_trim_statement? hs
  rw [(trim_statement? hp hstays).2] at hdead
  rcases (stays_iff hp).1 hstays with hl | hn
  · rw [hdead] at hl
    cases hl
  · rw [hc] at hn
    cases hn

/-- Without dead code there are no regions. -/
theorem deadRegions_eq_nil (h : g.liveness.deadCode g = []) : g.deadRegions g.liveness = [] := by
  have hperm := DeadFlow.flatMap_regions_perm ⟨g, g.liveness⟩
  rw [DeadFlow.code_eq, h, List.perm_nil] at hperm
  refine List.eq_nil_iff_forall_not_mem.2 fun r hr => ?_
  have hne := (List.mem_filter.1 hr).2
  rw [List.flatMap_eq_nil_iff.1 hperm r hr] at hne
  cases hne

/-- Without its dead code a function has a graph, in which every statement that is left is as live as before, every block is
entered and left at its end as before, and nothing is reported. -/
theorem trim_reports_nothing (g : Graph) :
    ofFunction g.trimmedFunction = .ok g.trim ∧
    (∀ p s, g.statement? p = some s → p ∉ g.liveness.deadCode g →
      g.trim.statement? (g.trimmed p) = some s ∧ g.trim.liveness.isLive (g.trimmed p) = g.liveness.isLive p) ∧
    (∀ q s, g.trim.statement? q = some s → ∃ p, g.statement? p = some s ∧ p ∉ g.liveness.deadCode g ∧ g.trimmed p = q) ∧
    (∀ b, g.trim.liveness.isEntered b = g.liveness.isEntered b ∧ g.trim.liveness.fallsThrough b = g.liveness.fallsThrough b) ∧
    ∀ subject, Check.unreachableFindings subject g.trim = [] := by
  refine ⟨ofFunction_eq_ok_iff.2 rfl, fun p s hs hp => trim_statement? hs (stays_iff_not_mem.2 hp), fun q s hs => ?_,
    fun b => ?_, fun subject => ?_⟩
  · obtain ⟨p, hp, hkept, hq⟩ := exists_of_trim_statement? hs
    exact ⟨p, hp, stays_iff_not_mem.1 hkept, hq⟩
  · unfold liveness
    rw [trim_survey]
    exact ⟨rfl, rfl⟩
  · unfold Check.unreachableFindings
    rw [deadRegions_eq_nil g.trim_deadCode]
    rfl

end Graph

end FlowLint.Flow
