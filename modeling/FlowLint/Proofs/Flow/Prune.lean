import FlowLint.Proofs.Flow.Faults
import FlowLint.Proofs.Flow.Rescan

/-!
# Successors that control does not reach

A block may list successors though control never arrives at its end. Without them the function is still without faults, and its
statements are just as live (`prune_liveness`): at no time does a scan pass on control from an end that is not left when no block
waits any more, since later scans find at least what earlier ones found.
-/

namespace FlowLint.Flow

namespace Graph

variable {g : Graph}

/-! ## Functions without such successors -/

/-- A block without successors, unless it keeps them. -/
def keepSuccessors (keep : Bool) (x : Block) : Block := if keep then x else { x with successors := [] }

/-- The function without the successors of blocks whose end control does not arrive at. -/
def prunedFunction (g : Graph) : Function :=
  { g.function with blocks := g.function.blocks.mapIdx fun b x => keepSuccessors (g.liveness.fallsThrough b) x }

theorem keepSuccessors_id (keep : Bool) (x : Block) : (keepSuccessors keep x).id = x.id := by
  cases keep <;> rfl

theorem keepSuccessors_statements (keep : Bool) (x : Block) : (keepSuccessors keep x).statements = x.statements := by
  cases keep <;> rfl

theorem prunedFunction_getElem? (g : Graph) (b : Nat) :
    g.prunedFunction.blocks[b]? = g.function.blocks[b]?.map (keepSuccessors (g.liveness.fallsThrough b)) :=
  List.getElem?_mapIdx

/-- The blocks keep their numbers. -/
theorem prunedFunction_ids (g : Graph) : g.prunedFunction.blocks.map Block.id = g.function.blocks.map Block.id :=
  ids_mapIdx (fun _ x => keepSuccessors_id _ x) g.function.blocks

/-- The function is still without faults. -/
theorem fault?_prunedFunction (g : Graph) : fault? g.prunedFunction = none := by
  refine fault?_mapIdx (fun _ x => keepSuccessors_id _ x) (fun b x => ?_)
    (fun _ x => (keepSuccessors_statements _ x).symm ▸ List.Subset.refl _) g.faultless
  cases g.liveness.fallsThrough b
  · exact List.nil_subset _
  · exact List.Subset.refl _

/-- The graph without the successors of blocks whose end control does not arrive at. -/
def prune (g : Graph) : Graph := ⟨g.prunedFunction, g.fault?_prunedFunction⟩

theorem prune_size (g : Graph) : g.prune.size = g.size := List.length_mapIdx

theorem prune_entry (g : Graph) : g.prune.entry = g.entry := entry_congr g.prunedFunction_ids rfl

theorem prune_statements (g : Graph) (b : Nat) : g.prune.statements b = g.statements b := by
  unfold statements
  rw [show g.prune.function = g.prunedFunction from rfl, prunedFunction_getElem?, Option.map_map]
  exact congrArg (Option.getD · []) (congrArg (Option.map · _) (funext fun x => keepSuccessors_statements _ x))

/-- Only the ends that control arrives at keep their successors. -/
theorem prune_successors (g : Graph) (b : Nat) :
    g.prune.successors b = if g.liveness.fallsThrough b then g.successors b else [] := by
  unfold successors
  rw [show g.prune.function = g.prunedFunction from rfl, prunedFunction_getElem?, funext (position?_congr g.prunedFunction_ids)]
  cases g.function.blocks[b]? with
  | none => cases g.liveness.fallsThrough b <;> rfl
  | some x => cases g.liveness.fallsThrough b <;> rfl

theorem prune_destination? (g : Graph) (s : Statement) : g.prune.destination? s = g.destination? s :=
  destination?_congr g.prunedFunction_ids s

theorem prune_follow (g : Graph) (s : Statement) (m : Marks) : g.prune.follow s m = g.follow s m := by
  unfold follow landing?
  simp only [prune_destination?, prune_statements]

theorem prune_scanStep (g : Graph) (sc : Scan) (s : Statement) : g.prune.scanStep sc s = g.scanStep sc s := by
  unfold scanStep
  rw [prune_follow]

/-- A scan of a block is the same, if its end keeps its successors or control does not arrive there. -/
theorem prune_scan {m : Marks} {b : Nat} (h : (g.scan m b).here = true → g.liveness.fallsThrough b = true) :
    g.prune.scan m b = g.scan m b := by
  have hfold : g.prune.scanStep = g.scanStep := funext fun sc => funext fun s => prune_scanStep g sc s
  unfold scan at h ⊢
  rw [hfold, prune_statements, prune_successors]
  dsimp only at h ⊢
  split
  · rename_i hh
    rw [if_pos hh] at h
    rw [if_pos (h hh)]
  · rfl

/-- The statements of the function are the same. -/
theorem prune_function_statements (g : Graph) : g.prune.function.statements = g.function.statements := by
  have h : ∀ f : Function, f.statements = (f.blocks.map Block.statements).flatten := fun f => List.flatMap_def
  rw [h, h]
  congr 1
  refine List.ext_getElem? fun b => ?_
  rw [List.getElem?_map, List.getElem?_map, show g.prune.function = g.prunedFunction from rfl, prunedFunction_getElem?,
    Option.map_map]
  exact congrArg (Option.map · _) (funext fun x => keepSuccessors_statements _ x)

theorem prune_unscanned (g : Graph) : g.prune.unscanned = g.unscanned := by
  unfold unscanned switchTargets
  simp only [prune_entry, prune_size, prune_statements]

theorem prune_scanBound (g : Graph) : g.prune.scanBound = g.scanBound := by
  unfold scanBound labelCount
  rw [prune_size, prune_function_statements]

/-- Scans of the pruned graph find the same. -/
theorem prune_settle (g : Graph) (n : Nat) : g.prune.settle n g.unscanned = g.settle n g.unscanned := by
  induction n with
  | zero => rfl
  | succ n ih =>
    rw [settle_add, settle_add, ih]
    rcases g.exists_scansNext_or n with ⟨b, m, hnext⟩ | ⟨hnil, -⟩
    · have hends : (g.scan m b).here = true → g.liveness.fallsThrough b = true := fun hh =>
        fallsThrough_iff_exists_scan.2 ⟨n, m, hnext, hh⟩
      obtain ⟨rest, hp, rfl⟩ := hnext
      simp only [settle, advance, hp, prune_scan hends]
    · rw [settle_of_pending_eq_nil hnil, settle_of_pending_eq_nil hnil]

/-- The statements of the pruned graph are just as live. -/
theorem prune_liveness (g : Graph) : g.prune.liveness = g.liveness := by
  unfold liveness survey
  rw [prune_unscanned, prune_scanBound, prune_settle]

end Graph

end FlowLint.Flow
