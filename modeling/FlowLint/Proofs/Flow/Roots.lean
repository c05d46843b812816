import FlowLint.Proofs.Flow.Closure
import FlowLint.Proofs.Flow.Rescan

/-!
# Roots of scans

Scans begin at the entry and at the blocks with labels of a `switch`. Other blocks wait only if an arc leads to them from a block
that is scanned, so that every live statement stands in a block to which arcs lead from one of these roots
(`fromRoot_of_isLive`), while the labels of a `switch` are live wherever they stand (`isLive_of_isSwitchLabel`). Labels may share
names here.
-/

namespace FlowLint.Flow.Graph

variable {g : Graph}

/-! ## Where arcs lead -/

theorem leads_of_mem_successors {b t : Nat} (h : t ∈ g.successors b) : g.Leads b t :=
  Leads.of_mem (a := ⟨b, none, t⟩) (mem_arcsOf.2 ⟨rfl, .inl ⟨rfl, h⟩⟩)

theorem leads_of_destination? {b i t : Nat} {s : Statement} (hs : g.statement? ⟨b, i⟩ = some s) (ht : g.destination? s = some t) :
    g.Leads b t :=
  Leads.of_mem (jump_mem_arcsOf hs ht)

/-- The blocks with a label of a `switch`. -/
theorem mem_switchTargets {b : Nat} :
    b ∈ g.switchTargets ↔ ∃ i s, g.statement? ⟨b, i⟩ = some s ∧ isSwitchLabel s = true := by
  unfold switchTargets
  rw [List.mem_filter, List.any_eq_true, List.mem_range]
  constructor
  · rintro ⟨-, s, hs, hw⟩
    obtain ⟨i, hi⟩ := exists_index hs
    exact ⟨i, s, hi, hw⟩
  · rintro ⟨i, s, hs, hw⟩
    exact ⟨block_lt hs, s, mem_statements hs, hw⟩

/-- Arcs lead to a block from the entry or from a block with a label of a `switch`. -/
def FromRoot (g : Graph) (b : Nat) : Prop := ∃ r ∈ g.entry :: g.switchTargets, Relation.ReflTransGen g.Leads r b

theorem FromRoot.leads {b t : Nat} (h : g.FromRoot b) (ht : g.Leads b t) : g.FromRoot t := by
  obtain ⟨r, hr, hb⟩ := h
  exact ⟨r, hr, hb.tail ht⟩

/-! ## Which blocks wait -/

/-- What waits besides are blocks to which arcs lead from a block. -/
def Sends (g : Graph) (b : Nat) (m m' : Marks) : Prop := ∀ t ∈ m'.pending, t ∈ m.pending ∨ g.Leads b t

variable {b : Nat} {m m' m'' : Marks}

theorem Sends.refl (m : Marks) : g.Sends b m m := fun _ h => .inl h

theorem Sends.trans (h : g.Sends b m m') (h' : g.Sends b m' m'') : g.Sends b m m'' :=
  fun t ht => (h' t ht).elim (h t) .inr

theorem Sends.append {t : Nat} (ht : g.Leads b t) (h : m'.pending = m.pending ++ [t]) : g.Sends b m m' := by
  intro x hx
  rw [h, List.mem_append, List.mem_singleton] at hx
  rcases hx with hx | rfl
  · exact .inl hx
  · exact .inr ht

theorem sends_enter {t : Nat} (ht : g.Leads b t) (m : Marks) : g.Sends b m (m.enter t) := by
  unfold Marks.enter
  split
  · exact .refl m
  · exact .append ht rfl

theorem sends_revive {t : Nat} (ht : g.Leads b t) (name : String) (m : Marks) : g.Sends b m (m.revive name t) := by
  unfold Marks.revive
  split
  · exact .refl m
  · exact .append ht rfl

/-- A jump makes its target wait at most, whether its label is revived or the block is entered. -/
theorem sends_follow {i : Nat} {s : Statement} (hs : g.statement? ⟨b, i⟩ = some s) (m : Marks) : g.Sends b m (g.follow s m) := by
  unfold Graph.follow
  split
  · exact .refl m
  · rename_i t ht
    have hleads := leads_of_destination? hs ht
    split
    · exact sends_revive hleads _ m
    · exact sends_enter hleads m

/-- A scan makes blocks wait to which arcs lead from the one that is scanned. -/
theorem sends_scan (m : Marks) (b : Nat) : g.Sends b m (g.scan m b).marks := by
  have hfold : g.Sends b m ((g.statements b).foldl g.scanStep ⟨[], m.entered.contains b, m⟩).marks := by
    refine (scan_induct (P := fun sc => g.Sends b m sc.marks) (.refl m) fun sc s h hs => ?_).1
    rcases g.scanStep_cases sc s with ⟨-, -, heq⟩ | ⟨-, heq⟩
    · rw [heq]
      exact h.trans (sends_follow hs sc.marks)
    · rw [heq]
      exact h
  unfold scan
  dsimp only
  split
  · exact foldl_enter_induct hfold fun m' h t ht => h.trans (sends_enter (leads_of_mem_successors ht) m')
  · exact hfold

/-- Arcs lead from a root to whatever waits. -/
theorem fromRoot_of_mem_pending {n : Nat} (h : b ∈ (g.settle n g.unscanned).marks.pending) : g.FromRoot b := by
  induction n generalizing b with
  | zero => exact ⟨b, h, .refl⟩
  | succ n ih =>
    rcases g.exists_scansNext_or n with ⟨c, m, hnext⟩ | ⟨-, heq⟩
    · rw [hnext.settle_succ] at h
      obtain ⟨rest, hp, rfl⟩ := hnext
      rw [hp] at ih
      refine (g.sends_scan _ c b h).elim (fun hb => ih (List.mem_cons_of_mem c hb)) fun hb => ?_
      exact (ih List.mem_cons_self).leads hb
    · exact ih (heq ▸ h)

/-- Arcs lead to the block of a live statement from the entry or from a block with a label of a `switch`. -/
theorem fromRoot_of_isLive {p : Point} (h : g.liveness.isLive p = true) : g.FromRoot p.block := by
  obtain ⟨n, m, ⟨rest, hp, -⟩, -⟩ := isLive_iff_exists_scan.1 h
  exact fromRoot_of_mem_pending (n := n) (hp ▸ List.mem_cons_self)

/-- The labels of a `switch` are live, whether arcs lead to them or not. -/
theorem isLive_of_isSwitchLabel {p : Point} {s : Statement} (hs : g.statement? p = some s) (hw : isSwitchLabel s = true) :
    g.liveness.isLive p = true :=
  (isLive_iff_comesTo hs).2 (.inr (.inl hw))

end FlowLint.Flow.Graph
