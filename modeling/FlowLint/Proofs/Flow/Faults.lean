import Mathlib.Algebra.BigOperators.Group.List.Basic
import Mathlib.Data.List.Count
import Mathlib.Data.List.Duplicate
import Mathlib.Data.Option.Basic
import FlowLint.Proofs.Flow.BlockOrder
import FlowLint.Proofs.Snapshot.Expr

/-!
# Functions without faults

A function has a graph exactly if it is well formed (`WellFormed`), and otherwise the fault that is reported is one that it has
(`HasFault`). The graph has the arcs that the function lists: its successors, its predecessors, the targets of its jumps and its
arcs into a block say the same (`Faithful`), with loops at a block and repeated successors counted as often as they are listed
(`ofFunction_faithful`).
-/

namespace FlowLint.Flow

variable {f : Function}

/-! ## Well-formed functions -/

/-- A number is that of a block of a function. -/
def IsBlock (f : Function) (b : BlockId) : Prop := ∃ x ∈ f.blocks, x.id = b

/-- A number is that of a variable of a function. -/
def IsVariable (f : Function) (v : VarId) : Prop := ∃ x ∈ f.vars, x.id = v

/-- Blocks and variables have distinct numbers, and what is named is there: the entry, the successors of blocks, the targets of
jumps other than `return`, and the variables of declarations and expressions. -/
structure WellFormed (f : Function) : Prop where
  blocks : f.blocks ≠ []
  blocks_nodup : (f.blocks.map Block.id).Nodup
  entry : IsBlock f f.entry
  vars_nodup : (f.vars.map Variable.id).Nodup
  successors : ∀ x ∈ f.blocks, ∀ t ∈ x.successors, IsBlock f t
  targets : ∀ s ∈ f.statements, ∀ j, s.action = .jump j → j.kind ≠ .return → ∃ t, j.target = some t ∧ IsBlock f t
  declared : ∀ s ∈ f.statements, ∀ v init, s.action = .declare v init → IsVariable f v
  mentioned : ∀ s ∈ f.statements, ∀ e ∈ s.exprs, ∀ n v, (Expr.var n v).OccursIn e → IsVariable f v

/-- The faults that a function has. -/
inductive HasFault (f : Function) : Fault → Prop where
  | noBlocks : f.blocks = [] → HasFault f .noBlocks
  | duplicateBlock {b : BlockId} : (f.blocks.map Block.id).Duplicate b → HasFault f (.duplicateBlock b)
  | missingEntry : ¬IsBlock f f.entry → HasFault f (.missingEntry f.entry)
  | duplicateVariable {v : VarId} : (f.vars.map Variable.id).Duplicate v → HasFault f (.duplicateVariable v)
  | unknownSuccessor {x : Block} {t : BlockId} :
      x ∈ f.blocks → t ∈ x.successors → ¬IsBlock f t → HasFault f (.unknownSuccessor x.id t)
  | noTarget {s : Statement} {j : Jump} :
      s ∈ f.statements → s.action = .jump j → j.kind ≠ .return → j.target = none → HasFault f (.noTarget j.kind s.span)
  | unknownTarget {s : Statement} {j : Jump} {t : BlockId} :
      s ∈ f.statements → s.action = .jump j → j.kind ≠ .return → j.target = some t → ¬IsBlock f t →
        HasFault f (.unknownTarget j.kind s.span t)
  | undeclared {s : Statement} {v : VarId} {init : Option Expr} :
      s ∈ f.statements → s.action = .declare v init → ¬IsVariable f v → HasFault f (.undeclared s.span v)
  | dangling {s : Statement} {e : Expr} {n : Note} {v : VarId} :
      s ∈ f.statements → e ∈ s.exprs → (Expr.var n v).OccursIn e → ¬IsVariable f v → HasFault f (.dangling s.span v)

/-- A well-formed function has no fault. -/
theorem WellFormed.not_hasFault (h : WellFormed f) {x : Fault} : ¬HasFault f x := by
  intro hx
  cases hx with
  | noBlocks hb => exact h.blocks hb
  | duplicateBlock hb => exact List.nodup_iff_forall_not_duplicate.1 h.blocks_nodup _ hb
  | missingEntry he => exact he h.entry
  | duplicateVariable hv => exact List.nodup_iff_forall_not_duplicate.1 h.vars_nodup _ hv
  | unknownSuccessor hx ht hb => exact hb (h.successors _ hx _ ht)
  | noTarget hs hj hk hn =>
    obtain ⟨t, ht, -⟩ := h.targets _ hs _ hj hk
    rw [hn] at ht
    cases ht
  | unknownTarget hs hj hk ht hb =>
    obtain ⟨t', ht', hb'⟩ := h.targets _ hs _ hj hk
    rw [ht, Option.some.injEq] at ht'
    exact hb (ht' ▸ hb')
  | undeclared hs hd hv => exact hv (h.declared _ hs _ _ hd)
  | dangling hs he ho hv => exact hv (h.mentioned _ hs _ he _ _ ho)

/-! ## The fault that is found -/

/-- A block has a position if it is there. -/
theorem position?_eq_none_iff {b : BlockId} : position? f b = none ↔ ¬IsBlock f b := by
  simp [position?, IsBlock]

theorem isBlock_of_position? {b : BlockId} (h : position? f b ≠ none) : IsBlock f b :=
  Classical.not_not.1 (mt position?_eq_none_iff.2 h)

theorem hasVariable_iff {v : VarId} : hasVariable f v = true ↔ IsVariable f v := by
  simp [hasVariable, IsVariable]

/-- A repetition that is found is one. -/
theorem duplicate_of_firstRepeated {seen l : List UInt32} {x : UInt32} (h : firstRepeated seen l = some x) :
    x ∈ l ∧ (x ∈ seen ∨ l.Duplicate x) := by
  induction l generalizing seen with
  | nil => cases h
  | cons y l ih =>
    unfold firstRepeated at h
    split at h
    · rename_i hy
      rw [Option.some.injEq] at h
      subst h
      exact ⟨List.mem_cons_self, .inl (by simpa using hy)⟩
    · obtain ⟨hx, hseen | hl⟩ := ih h
      · rcases List.mem_cons.1 hseen with rfl | hseen
        · exact ⟨List.mem_cons_self, .inr hx.duplicate_cons_self⟩
        · exact ⟨List.mem_cons_of_mem _ hx, .inl hseen⟩
      · exact ⟨List.mem_cons_of_mem _ hx, .inr (hl.duplicate_cons _)⟩

/-- The statements of a block are among those of its function. -/
theorem mem_statements_of_mem_blocks {x : Block} {s : Statement} (hx : x ∈ f.blocks) (hs : s ∈ x.statements) :
    s ∈ f.statements := List.mem_flatMap.2 ⟨x, hx, hs⟩

theorem hasFault_of_jumpFault? {s : Statement} {j : Jump} {x : Fault} (hs : s ∈ f.statements) (hj : s.action = .jump j)
    (h : jumpFault? f j s.span = some x) : HasFault f x := by
  unfold jumpFault? at h
  split at h
  · cases h
  · rename_i hk
    split at h
    · rename_i ht
      cases h
      exact .noTarget hs hj hk ht
    · rename_i t ht
      split at h
      · cases h
      · rename_i hb
        cases h
        exact .unknownTarget hs hj hk ht (position?_eq_none_iff.1 (by simpa using hb))

/-- A dangling variable is one that an expression is and the function does not have. -/
theorem danglingVar?_eq_some_iff {e : Expr} {v : VarId} :
    danglingVar? f e = some v ↔ (∃ n, e = .var n v) ∧ ¬IsVariable f v := by
  rw [← hasVariable_iff]
  cases e with
  | var n w => grind [danglingVar?]
  | _ => simp [danglingVar?]

theorem hasFault_of_statementFault? {s : Statement} {x : Fault} (hs : s ∈ f.statements) (h : statementFault? f s = some x) :
    HasFault f x := by
  unfold statementFault? at h
  rw [Option.orElse_eq_some] at h
  rcases h with h | ⟨-, h⟩
  · split at h
    · exact hasFault_of_jumpFault? hs ‹_› h
    · rename_i v init hd
      split at h
      · cases h
      · rename_i hv
        cases h
        exact .undeclared hs hd fun hvar => hv (hasVariable_iff.2 hvar)
    · cases h
  · obtain ⟨v, hv, rfl⟩ := Option.map_eq_some_iff.1 h
    obtain ⟨e, he, hdangling⟩ := List.exists_of_findSome?_eq_some hv
    obtain ⟨⟨n, rfl⟩, hvar⟩ := danglingVar?_eq_some_iff.1 hdangling
    obtain ⟨e, hes, ho⟩ := Statement.mem_nodes_iff.1 he
    exact .dangling hs hes ho hvar

theorem hasFault_of_blockFault? {b : Block} {x : Fault} (hb : b ∈ f.blocks) (h : blockFault? f b = some x) : HasFault f x := by
  unfold blockFault? at h
  rw [Option.orElse_eq_some] at h
  rcases h with h | ⟨-, h⟩
  · obtain ⟨t, ht, rfl⟩ := Option.map_eq_some_iff.1 h
    have hnone : position? f t = none := by simpa using List.find?_some ht
    exact .unknownSuccessor hb (List.mem_of_find?_eq_some ht) (position?_eq_none_iff.1 hnone)
  · obtain ⟨s, hs, hfault⟩ := List.exists_of_findSome?_eq_some h
    exact hasFault_of_statementFault? (mem_statements_of_mem_blocks hb hs) hfault

/-- The fault that is found is one that the function has. -/
theorem hasFault_of_fault? {x : Fault} (h : fault? f = some x) : HasFault f x := by
  unfold fault? at h
  split at h
  · rename_i hempty
    cases h
    exact .noBlocks (List.isEmpty_iff.1 hempty)
  · simp only [Option.orElse_eq_some] at h
    rcases h with h | ⟨-, h | ⟨-, h | ⟨-, h⟩⟩⟩
    · obtain ⟨b, hb, rfl⟩ := Option.map_eq_some_iff.1 h
      exact .duplicateBlock ((duplicate_of_firstRepeated hb).2.resolve_left List.not_mem_nil)
    · split at h
      · cases h
      · rename_i hentry
        cases h
        exact .missingEntry (position?_eq_none_iff.1 (by simpa using hentry))
    · obtain ⟨v, hv, rfl⟩ := Option.map_eq_some_iff.1 h
      exact .duplicateVariable ((duplicate_of_firstRepeated hv).2.resolve_left List.not_mem_nil)
    · obtain ⟨b, hb, hfault⟩ := List.exists_of_findSome?_eq_some h
      exact hasFault_of_blockFault? hb hfault

/-! ## Functions in which none is found -/

/-- A jump without a fault, other than `return`, has a target that is there. -/
theorem exists_target_of_jumpFault? {j : Jump} {span : Span} (h : jumpFault? f j span = none) (hk : j.kind ≠ .return) :
    ∃ t, j.target = some t ∧ IsBlock f t := by
  unfold jumpFault? at h
  rw [if_neg hk] at h
  cases ht : j.target with
  | none => simp [ht] at h
  | some t => exact ⟨t, rfl, isBlock_of_position? (by simpa [ht] using h)⟩

/-- The parts of a statement without a fault: the jump, what is declared, and the variables that are mentioned. -/
theorem statementFault?_eq_none {s : Statement} (h : statementFault? f s = none) :
    (∀ j, s.action = .jump j → jumpFault? f j s.span = none) ∧
    (∀ v init, s.action = .declare v init → IsVariable f v) ∧
    ∀ e ∈ s.exprs, ∀ n v, (Expr.var n v).OccursIn e → IsVariable f v := by
  unfold statementFault? at h
  rw [Option.orElse_eq_none, Option.map_eq_none_iff] at h
  obtain ⟨haction, hnodes⟩ := h
  refine ⟨fun j hj => ?_, fun v init hd => ?_, fun e he n v ho => ?_⟩
  · rwa [hj] at haction
  · rw [hd] at haction
    exact hasVariable_iff.1 (by simpa using haction)
  · have hnode := List.findSome?_eq_none_iff.1 hnodes _ (Statement.mem_nodes_iff.2 ⟨e, he, ho⟩)
    refine Classical.not_not.1 fun hv => ?_
    rw [danglingVar?_eq_some_iff.2 ⟨⟨n, rfl⟩, hv⟩] at hnode
    cases hnode

/-- The parts of a block without a fault: its successors and its statements. -/
theorem blockFault?_eq_none {x : Block} (h : blockFault? f x = none) :
    (∀ t ∈ x.successors, IsBlock f t) ∧ ∀ s ∈ x.statements, statementFault? f s = none := by
  unfold blockFault? at h
  rw [Option.orElse_eq_none, Option.map_eq_none_iff] at h
  refine ⟨fun t ht => ?_, List.findSome?_eq_none_iff.1 h.2⟩
  exact isBlock_of_position? (by simpa using List.find?_eq_none.1 h.1 t ht)

/-- A function in which no fault is found is well formed. -/
theorem wellFormed_of_fault? (h : fault? f = none) : WellFormed f := by
  unfold fault? at h
  split at h
  · cases h
  rename_i hempty
  simp only [Option.orElse_eq_none, Option.map_eq_none_iff] at h
  obtain ⟨hblocks, hentry, hvars, hrest⟩ := h
  have hblock : ∀ x ∈ f.blocks, blockFault? f x = none := List.findSome?_eq_none_iff.1 hrest
  have hstatement : ∀ s ∈ f.statements, statementFault? f s = none := by
    intro s hs
    obtain ⟨x, hx, hs⟩ := List.mem_flatMap.1 hs
    exact (blockFault?_eq_none (hblock x hx)).2 s hs
  exact {
    blocks := fun hnil => hempty (List.isEmpty_iff.2 hnil)
    blocks_nodup := (nodup_of_firstRepeated hblocks).1
    entry := isBlock_of_position? (by simpa using hentry)
    vars_nodup := (nodup_of_firstRepeated hvars).1
    successors := fun x hx => (blockFault?_eq_none (hblock x hx)).1
    targets := fun s hs j hj hk => exists_target_of_jumpFault? ((statementFault?_eq_none (hstatement s hs)).1 j hj) hk
    declared := fun s hs => (statementFault?_eq_none (hstatement s hs)).2.1
    mentioned := fun s hs => (statementFault?_eq_none (hstatement s hs)).2.2 }

/-- In a well-formed function no fault is found. -/
theorem fault?_of_wellFormed (h : WellFormed f) : fault? f = none := by
  cases hx : fault? f with
  | none => rfl
  | some x => exact absurd (hasFault_of_fault? hx) h.not_hasFault

/-! ## Functions with less in their blocks -/

section

variable {change : Nat → Block → Block}

/-- Blocks that are changed keep their numbers if no change touches them. -/
theorem ids_mapIdx (hid : ∀ b x, (change b x).id = x.id) (blocks : List Block) :
    (blocks.mapIdx change).map Block.id = blocks.map Block.id := by
  refine List.ext_getElem? fun b => ?_
  rw [List.getElem?_map, List.getElem?_map, List.getElem?_mapIdx, Option.map_map]
  exact congrArg (Option.map · _) (funext fun x => hid b x)

/-- A function in which no fault is found has none if its blocks lose successors and statements. -/
theorem fault?_mapIdx (hid : ∀ b x, (change b x).id = x.id) (hsuccessors : ∀ b x, (change b x).successors ⊆ x.successors)
    (hstatements : ∀ b x, (change b x).statements ⊆ x.statements) (h : fault? f = none) :
    fault? { f with blocks := f.blocks.mapIdx change } = none := by
  have hwell := wellFormed_of_fault? h
  have hids := ids_mapIdx hid f.blocks
  have hblock : ∀ {t}, IsBlock f t → IsBlock { f with blocks := f.blocks.mapIdx change } t := by
    intro t ht
    refine List.mem_map.1 (?_ : t ∈ (f.blocks.mapIdx change).map Block.id)
    exact hids ▸ List.mem_map.2 ht
  have hless : ∀ y ∈ f.blocks.mapIdx change, ∃ x ∈ f.blocks, y.successors ⊆ x.successors ∧ y.statements ⊆ x.statements := by
    intro y hy
    obtain ⟨b, hb, rfl⟩ := List.mem_mapIdx.1 hy
    exact ⟨_, List.getElem_mem hb, hsuccessors b _, hstatements b _⟩
  have hmem : ∀ s ∈ ({ f with blocks := f.blocks.mapIdx change } : Function).statements, s ∈ f.statements := by
    intro s hs
    obtain ⟨y, hy, hs⟩ := List.mem_flatMap.1 hs
    obtain ⟨x, hx, -, hsub⟩ := hless y hy
    exact mem_statements_of_mem_blocks hx (hsub hs)
  refine fault?_of_wellFormed {
    blocks := fun hnil => hwell.blocks (List.mapIdx_eq_nil_iff.1 hnil)
    blocks_nodup := hids ▸ hwell.blocks_nodup
    entry := hblock hwell.entry
    vars_nodup := hwell.vars_nodup
    successors := fun y hy t ht => ?_
    targets := fun s hs j hj hk => ?_
    declared := fun s hs => hwell.declared s (hmem s hs)
    mentioned := fun s hs => hwell.mentioned s (hmem s hs) }
  · obtain ⟨x, hx, hsub, -⟩ := hless y hy
    exact hblock (hwell.successors x hx t (hsub ht))
  · obtain ⟨t, ht, hb⟩ := hwell.targets s (hmem s hs) j hj hk
    exact ⟨t, ht, hblock hb⟩

end

/-! ## The arcs of a graph -/

namespace Graph

variable {g : Graph} {b t : Nat}

/-- A graph is that of its function. -/
theorem ofFunction_eq_ok_iff : ofFunction f = .ok g ↔ g.function = f := by
  obtain ⟨f', hf'⟩ := g
  unfold ofFunction
  split
  · rename_i x hx
    refine ⟨nofun, fun h => ?_⟩
    dsimp only at h
    rw [← h, hf'] at hx
    cases hx
  · simp [eq_comm]

/-- A function without a graph has a fault, the one that is found. -/
theorem ofFunction_eq_error_iff {x : Fault} : ofFunction f = .error x ↔ fault? f = some x := by
  unfold ofFunction
  split
  · rename_i y hy
    simp [hy]
  · rename_i hnone
    simp [hnone]

/-- The successors of a block are the positions of the blocks that it lists, in order. -/
theorem map_successors {x : Block} (hx : g.function.blocks[b]? = some x) :
    (g.successors b).map (fun t => g.function.blocks[t]?.map Block.id) = x.successors.map some := by
  have hwell := wellFormed_of_fault? g.faultless
  unfold successors
  rw [hx, Option.map_some, Option.getD_some, List.map_filterMap, ← List.filterMap_eq_map]
  refine List.filterMap_congr fun id hid => ?_
  obtain ⟨t, ht⟩ : ∃ t, position? g.function id = some t :=
    Option.ne_none_iff_exists'.1 fun hnone => position?_eq_none_iff.1 hnone (hwell.successors x (List.mem_of_getElem? hx) id hid)
  obtain ⟨y, hy, rfl⟩ := position?_eq_some_iff.1 ht
  simp [ht, hy]

/-- A block is a successor of another one as often as that one lists it. -/
theorem count_successors {x y : Block} (hx : g.function.blocks[b]? = some x) (hy : g.function.blocks[t]? = some y) :
    (g.successors b).count t = x.successors.count y.id := by
  unfold successors
  rw [hx, Option.map_some, Option.getD_some, List.count_filterMap, List.count]
  refine List.countP_congr fun id _ => ?_
  rw [beq_iff_eq, beq_iff_eq, position?_eq_some_iff, hy]
  simp [eq_comm]

/-- A place has a target if it is that of a jump other than `return`, and then it is the block that the jump names. -/
theorem jumpTarget?_eq_some_iff {i : Nat} :
    g.jumpTarget? ⟨b, i⟩ = some t ↔ ∃ s j y, g.statement? ⟨b, i⟩ = some s ∧ s.action = .jump j ∧ j.kind ≠ .return ∧
      g.function.blocks[t]? = some y ∧ j.target = some y.id := by
  have hdestination : ∀ s, g.destination? s = some t ↔
      ∃ j y, s.action = .jump j ∧ j.kind ≠ .return ∧ g.function.blocks[t]? = some y ∧ j.target = some y.id := by
    intro s
    unfold destination?
    split
    · rename_i j hj
      by_cases hk : j.kind = .return
      · rw [if_pos hk]
        exact ⟨nofun, fun ⟨j', _, hj', hk', _⟩ => absurd hk (Action.jump.inj (hj.symm.trans hj') ▸ hk')⟩
      · simp only [hk, if_false, Option.bind_eq_some_iff, position?_eq_some_iff]
        grind
    · rename_i hj
      refine ⟨nofun, fun ⟨j, _, h, _⟩ => absurd h (hj j)⟩
  unfold jumpTarget?
  rw [Option.bind_eq_some_iff]
  simp only [hdestination]
  grind

/-- The jumps of a block are listed in order. -/
theorem jumpsFrom_ascending (g : Graph) (index : Nat) (l : List Statement) :
    (g.jumpsFrom index l).Pairwise fun e e' => e.1 < e'.1 := by
  induction l generalizing index with
  | nil => exact .nil
  | cons s l ih =>
    unfold jumpsFrom
    split
    · refine List.pairwise_cons.2 ⟨fun e he => ?_, ih _⟩
      obtain ⟨i, -, hi, -⟩ := mem_jumpsFrom.1 he
      dsimp only
      omega
    · exact ih _

/-- An arc is listed in a graph as often as among those that leave its source. -/
theorem count_arcs (g : Graph) (a : Arc) : g.arcs.count a = (g.arcsOf a.source).count a := by
  have hother : ∀ b, b ≠ a.source → b ∈ List.range g.size → (List.count a ∘ g.arcsOf) b = 0 := by
    intro b hb _
    exact List.count_eq_zero.2 fun h => hb (mem_arcsOf.1 h).1.symm
  unfold arcs
  rw [List.count_flatMap, List.sum_map_eq_nsmul_single a.source _ hother]
  by_cases hs : a.source < g.size
  · simp [List.count_eq_one_of_mem List.nodup_range (List.mem_range.2 hs)]
  · have hnone : (g.arcsOf a.source).count a = 0 := List.count_eq_zero.2 fun h => hs (source_lt h)
    simp [hnone]

/-- An arc into a block is listed there as often as among those that leave its source. -/
theorem count_incoming (g : Graph) (a : Arc) : (g.incoming a.target).count a = (g.arcsOf a.source).count a := by
  unfold incoming
  rw [List.count_filter (by simp), count_arcs]

/-- The arcs that leave the end of a block, and those of its jumps. -/
theorem arcsOf_eq (g : Graph) (b : Nat) :
    g.arcsOf b = ((g.successors b).map fun t => ⟨b, none, t⟩) ++
      (g.jumpsFrom 0 (g.statements b)).map fun e => ⟨b, some e.1, e.2⟩ := rfl

/-- The end of a block has an arc for each successor that is listed. -/
theorem count_arcsOf_end (g : Graph) (b t : Nat) : (g.arcsOf b).count ⟨b, none, t⟩ = (g.successors b).count t := by
  have hjumps : ((g.jumpsFrom 0 (g.statements b)).map fun e => (⟨b, some e.1, e.2⟩ : Arc)).count ⟨b, none, t⟩ = 0 := by
    refine List.count_eq_zero.2 fun h => ?_
    obtain ⟨e, -, he⟩ := List.mem_map.1 h
    cases he
  rw [arcsOf_eq, List.count_append, hjumps, Nat.add_zero]
  exact List.count_map_of_injective _ _ (fun t t' h => congrArg Arc.target h) t

/-- A jump has one arc, to its target. -/
theorem count_arcsOf_jump (g : Graph) (b i t : Nat) :
    (g.arcsOf b).count ⟨b, some i, t⟩ = if g.jumpTarget? ⟨b, i⟩ = some t then 1 else 0 := by
  have hends : ((g.successors b).map fun t => (⟨b, none, t⟩ : Arc)).count ⟨b, some i, t⟩ = 0 := by
    refine List.count_eq_zero.2 fun h => ?_
    obtain ⟨e, -, he⟩ := List.mem_map.1 h
    cases he
  have hnodup : ((g.jumpsFrom 0 (g.statements b)).map fun e => (⟨b, some e.1, e.2⟩ : Arc)).Nodup := by
    refine List.pairwise_map.2 ((g.jumpsFrom_ascending 0 _).imp fun {e e'} hlt heq => ?_)
    have hindex : e.1 = e'.1 := Option.some.inj (congrArg Arc.jump heq)
    omega
  have hmem : (⟨b, some i, t⟩ : Arc) ∈ g.arcsOf b ↔ g.jumpTarget? ⟨b, i⟩ = some t := by
    simp [mem_arcsOf]
  rw [arcsOf_eq] at hmem ⊢
  rw [List.count_append, hends, Nat.zero_add]
  rw [List.mem_append, or_iff_right (List.count_eq_zero.1 hends)] at hmem
  by_cases ht : g.jumpTarget? ⟨b, i⟩ = some t
  · rw [if_pos ht, List.count_eq_one_of_mem hnodup (hmem.2 ht)]
  · rw [if_neg ht, List.count_eq_zero.2 (mt hmem.1 ht)]

/-- A graph has the arcs that its function lists, whichever way they are looked at: successors in the order in which a block lists
them, one arc into a block for each time that it is listed as a successor and one for each jump to it, no others, and the sources
of these as predecessors. -/
structure Faithful (g : Graph) : Prop where
  successors : ∀ b x, g.function.blocks[b]? = some x →
    (g.successors b).map (fun t => g.function.blocks[t]?.map Block.id) = x.successors.map some
  jumpTarget : ∀ b i t, g.jumpTarget? ⟨b, i⟩ = some t ↔ ∃ s j y, g.statement? ⟨b, i⟩ = some s ∧ s.action = .jump j ∧
    j.kind ≠ .return ∧ g.function.blocks[t]? = some y ∧ j.target = some y.id
  incoming_end : ∀ b t, (g.incoming t).count ⟨b, none, t⟩ = (g.successors b).count t
  incoming_listed : ∀ b t x y, g.function.blocks[b]? = some x → g.function.blocks[t]? = some y →
    (g.incoming t).count ⟨b, none, t⟩ = x.successors.count y.id
  incoming_jump : ∀ b i t, (g.incoming t).count ⟨b, some i, t⟩ = if g.jumpTarget? ⟨b, i⟩ = some t then 1 else 0
  incoming_target : ∀ t, ∀ a ∈ g.incoming t, a.target = t
  predecessors : ∀ t, (g.predecessors t).Pairwise (· < ·) ∧ ∀ b, b ∈ g.predecessors t ↔ ∃ a ∈ g.incoming t, a.source = b

/-- The predecessors of a block are the sources of the arcs into it. -/
theorem mem_predecessors_iff : b ∈ g.predecessors t ↔ ∃ a ∈ g.incoming t, a.source = b := by
  unfold predecessors
  rw [List.mem_filter, List.any_eq_true]
  constructor
  · rintro ⟨-, a, ha, ht⟩
    have hs := (mem_arcsOf.1 ha).1
    exact ⟨a, mem_incoming.2 ⟨hs ▸ ha, eq_of_beq ht⟩, hs⟩
  · rintro ⟨a, ha, rfl⟩
    obtain ⟨harcs, ht⟩ := mem_incoming.1 ha
    exact ⟨List.mem_range.2 (source_lt harcs), a, harcs, beq_iff_eq.2 ht⟩

/-- All graphs are faithful. -/
theorem faithful (g : Graph) : g.Faithful where
  successors _ _ := map_successors
  jumpTarget _ _ _ := jumpTarget?_eq_some_iff
  incoming_end b t := (g.count_incoming ⟨b, none, t⟩).trans (g.count_arcsOf_end b t)
  incoming_listed b t _ _ hx hy := by rw [g.count_incoming ⟨b, none, t⟩, count_arcsOf_end, count_successors hx hy]
  incoming_jump b i t := (g.count_incoming ⟨b, some i, t⟩).trans (g.count_arcsOf_jump b i t)
  incoming_target _ _ ha := (mem_incoming.1 ha).2
  predecessors _ := ⟨List.Pairwise.filter _ List.pairwise_lt_range, fun _ => mem_predecessors_iff⟩

/-- Exactly the well-formed functions have graphs; for all others a fault is reported that they have. The graph of a function has the
arcs that the function lists. -/
theorem ofFunction_faithful (f : Function) :
    ((∃ g, ofFunction f = .ok g) ↔ WellFormed f) ∧
    (¬WellFormed f ↔ ∃ x, ofFunction f = .error x ∧ HasFault f x) ∧
    ∀ g, ofFunction f = .ok g → g.function = f ∧ g.Faithful := by
  have hok : (∃ g, ofFunction f = .ok g) ↔ WellFormed f := by
    constructor
    · rintro ⟨g, hg⟩
      exact ofFunction_eq_ok_iff.1 hg ▸ wellFormed_of_fault? g.faultless
    · intro h
      cases hf : fault? f with
      | none => exact ⟨⟨f, hf⟩, ofFunction_eq_ok_iff.2 rfl⟩
      | some x => exact absurd (hasFault_of_fault? hf) h.not_hasFault
  refine ⟨hok, ⟨fun h => ?_, fun ⟨x, _, hx⟩ h => h.not_hasFault hx⟩, fun g hg => ⟨ofFunction_eq_ok_iff.1 hg, g.faithful⟩⟩
  cases hf : ofFunction f with
  | ok g => exact absurd (hok.1 ⟨g, hf⟩) h
  | error x => exact ⟨x, rfl, hasFault_of_fault? (ofFunction_eq_error_iff.1 hf)⟩

-- A block that is listed twice as a successor has two arcs from there, and a block may have arcs from itself.
example :
    let g : Graph :=
      { function := { (default : Function) with
          blocks := [⟨0, [⟨.jump ⟨.continue, some 0, none, none⟩, .zero⟩], [0, 1, 1]⟩, ⟨1, [], []⟩] }
        faultless := rfl }
    (g.incoming 0).length = 2 ∧ (g.incoming 1).length = 2 ∧ g.predecessors 0 = [0] ∧ g.predecessors 1 = [0] := by
  decide

end Graph

end FlowLint.Flow
