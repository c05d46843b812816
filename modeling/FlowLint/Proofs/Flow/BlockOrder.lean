import Mathlib.Data.List.Nodup
import FlowLint.Proofs.Flow.Closure
import FlowLint.Proofs.Flow.Liveness

/-!
# The order of blocks

Two functions that list the same blocks in another order have the same graph but for the positions of the blocks: `moved` takes
the position of a block in one graph to that in the other one. Statements, arcs, the blocks that are reached and the places where
control can arrive are the same under this renaming (`statements_moved`, `arcsOf_moved`, `moved_mem_reachable`, `Arrives.moved`),
and so is liveness if no name labels two statements (`isLive_moved`).
-/

namespace FlowLint.Flow

/-- What is no fault as a repetition is no repetition. -/
theorem nodup_of_firstRepeated {seen l : List UInt32} (h : firstRepeated seen l = none) :
    l.Nodup ∧ ∀ x ∈ l, x ∉ seen := by
  induction l generalizing seen with
  | nil => exact ⟨List.nodup_nil, by simp⟩
  | cons x l ih =>
    unfold firstRepeated at h
    split at h
    · cases h
    · rename_i hx
      obtain ⟨hnodup, hfresh⟩ := ih h
      refine ⟨List.nodup_cons.2 ⟨fun hmem => hfresh x hmem List.mem_cons_self, hnodup⟩, ?_⟩
      intro y hy
      rcases List.mem_cons.1 hy with rfl | hy
      · simpa using hx
      · exact fun hmem => hfresh y hy (List.mem_cons_of_mem x hmem)

namespace Graph

variable {g g' : Graph}

/-- The blocks of a graph have distinct numbers. -/
theorem ids_nodup (g : Graph) : (g.function.blocks.map Block.id).Nodup := by
  have h := g.faultless
  unfold fault? at h
  split at h
  · cases h
  · simp only [Option.orElse_eq_orElse, Option.orElse_eq_or, Option.or_eq_none_iff, Option.map_eq_none_iff] at h
    exact (nodup_of_firstRepeated h.1).1

/-- Blocks of one number have one position. -/
theorem eq_of_id_eq {i j : Nat} {x y : Block} (hi : g.function.blocks[i]? = some x) (hj : g.function.blocks[j]? = some y)
    (h : x.id = y.id) : i = j := by
  have hix : (g.function.blocks.map Block.id)[i]? = some x.id := by rw [List.getElem?_map, hi]; rfl
  have hjy : (g.function.blocks.map Block.id)[j]? = some x.id := by rw [List.getElem?_map, hj, h]; rfl
  obtain ⟨hilt, hix⟩ := List.getElem?_eq_some_iff.1 hix
  obtain ⟨hjlt, hjy⟩ := List.getElem?_eq_some_iff.1 hjy
  exact (List.Nodup.getElem_inj_iff g.ids_nodup).1 (hix.trans hjy.symm)

/-- The position of a number is that of the block that has it. -/
theorem position?_eq_some_iff {id : BlockId} {i : Nat} :
    position? g.function id = some i ↔ ∃ x, g.function.blocks[i]? = some x ∧ x.id = id := by
  unfold position?
  rw [List.findIdx?_eq_some_iff_getElem]
  constructor
  · rintro ⟨hi, hid, -⟩
    exact ⟨_, List.getElem?_eq_getElem hi, eq_of_beq hid⟩
  · rintro ⟨x, hx, rfl⟩
    obtain ⟨hi, rfl⟩ := List.getElem?_eq_some_iff.1 hx
    refine ⟨hi, beq_self_eq_true _, fun j hj hid => ?_⟩
    have hji := eq_of_id_eq (List.getElem?_eq_getElem (Nat.lt_trans hj hi)) hx (eq_of_beq hid)
    omega

/-- Two graphs are those of functions that differ in the order of their blocks at most. -/
structure Reorders (g g' : Graph) : Prop where
  function : g'.function = { g.function with blocks := g'.function.blocks }
  blocks : g.function.blocks.Perm g'.function.blocks

/-- The position in another graph of a block. -/
def moved (g g' : Graph) (b : Nat) : Nat := ((g.function.blocks[b]?).bind fun x => position? g'.function x.id).getD b

theorem Reorders.symm (h : g.Reorders g') : g'.Reorders g := by
  refine ⟨?_, h.blocks.symm⟩
  rw [h.function]

/-- A block stands in the other graph where it was moved to. -/
theorem getElem?_moved (h : g.Reorders g') (b : Nat) : g'.function.blocks[g.moved g' b]? = g.function.blocks[b]? := by
  unfold moved
  cases hb : g.function.blocks[b]? with
  | none =>
    have hlen : g.function.blocks.length ≤ b := List.getElem?_eq_none_iff.1 hb
    exact List.getElem?_eq_none (h.blocks.length_eq ▸ hlen)
  | some x =>
    obtain ⟨i, hi⟩ := List.getElem?_of_mem (h.blocks.mem_iff.1 (List.mem_of_getElem? hb))
    rw [Option.bind_some, position?_eq_some_iff.2 ⟨x, hi, rfl⟩]
    exact hi

/-- Moving a block back leads to where it was. -/
theorem moved_moved (h : g.Reorders g') (b : Nat) : g'.moved g (g.moved g' b) = b := by
  cases hb : g.function.blocks[b]? with
  | none =>
    unfold moved
    rw [hb]
    simp only [Option.bind_none, Option.getD_none]
    rw [List.getElem?_eq_none (h.blocks.length_eq ▸ List.getElem?_eq_none_iff.1 hb)]
    rfl
  | some x =>
    have hback : g.function.blocks[g'.moved g (g.moved g' b)]? = some x := by
      rw [getElem?_moved h.symm, getElem?_moved h, hb]
    exact eq_of_id_eq hback hb rfl

theorem moved_lt (h : g.Reorders g') {b : Nat} (hb : b < g.size) : g.moved g' b < g'.size := by
  have hx : g.function.blocks[b]? = some _ := List.getElem?_eq_getElem hb
  rw [← getElem?_moved h] at hx
  exact (List.getElem?_eq_some_iff.1 hx).1

theorem statements_moved (h : g.Reorders g') (b : Nat) : g'.statements (g.moved g' b) = g.statements b := by
  unfold statements
  rw [getElem?_moved h]

theorem position?_moved (h : g.Reorders g') (id : BlockId) :
    position? g'.function id = (position? g.function id).map (g.moved g') := by
  cases hp : position? g.function id with
  | some i =>
    obtain ⟨x, hx, rfl⟩ := position?_eq_some_iff.1 hp
    exact position?_eq_some_iff.2 ⟨x, (getElem?_moved h i).trans hx, rfl⟩
  | none =>
    cases hp' : position? g'.function id with
    | none => rfl
    | some i =>
      obtain ⟨x, hx, rfl⟩ := position?_eq_some_iff.1 hp'
      rw [position?_eq_some_iff.2 ⟨x, (getElem?_moved h.symm i).trans hx, rfl⟩] at hp
      cases hp

theorem entry_moved (h : g.Reorders g') : g'.entry = g.moved g' g.entry := by
  have hentry : g'.function.entry = g.function.entry := by rw [h.function]
  have hmoved := g'.position?_entry
  rw [hentry, position?_moved h, g.position?_entry] at hmoved
  exact (Option.some.inj hmoved).symm

theorem successors_moved (h : g.Reorders g') (b : Nat) :
    g'.successors (g.moved g' b) = (g.successors b).map (g.moved g') := by
  unfold successors
  rw [getElem?_moved h, List.map_filterMap]
  exact congrArg (List.filterMap · _) (funext (position?_moved h))

theorem destination?_moved (h : g.Reorders g') (s : Statement) :
    g'.destination? s = (g.destination? s).map (g.moved g') := by
  unfold destination?
  split
  · rename_i j _
    split
    · rfl
    · rw [Option.map_bind]
      exact congrArg (Option.bind j.target) (funext (position?_moved h))
  · rfl

/-- An arc between the blocks in another graph. -/
def movedArc (g g' : Graph) (a : Arc) : Arc := ⟨g.moved g' a.source, a.jump, g.moved g' a.target⟩

theorem jumpsFrom_moved (h : g.Reorders g') (index : Nat) (l : List Statement) :
    g'.jumpsFrom index l = (g.jumpsFrom index l).map fun e => (e.1, g.moved g' e.2) := by
  induction l generalizing index with
  | nil => rfl
  | cons s l ih =>
    unfold jumpsFrom
    rw [destination?_moved h, ih]
    cases g.destination? s <;> rfl

theorem arcsOf_moved (h : g.Reorders g') (b : Nat) : g'.arcsOf (g.moved g' b) = (g.arcsOf b).map (g.movedArc g') := by
  unfold arcsOf
  rw [successors_moved h, statements_moved h, jumpsFrom_moved h, List.map_append, List.map_map, List.map_map, List.map_map,
    List.map_map]
  rfl

theorem movedArc_mem (h : g.Reorders g') {a : Arc} (ha : a ∈ g.arcsOf a.source) :
    g.movedArc g' a ∈ g'.arcsOf (g.movedArc g' a).source :=
  arcsOf_moved h a.source ▸ List.mem_map_of_mem ha

/-- The same blocks are reached. -/
theorem moved_mem_reachable (h : g.Reorders g') {b : Nat} (hb : b ∈ g.reachable) : g.moved g' b ∈ g'.reachable := by
  have hsteps := mem_reachable_iff.1 hb
  induction hsteps with
  | refl => exact entry_moved h ▸ g'.entry_mem_reachable
  | @tail c d hpath hstep ih =>
    obtain ⟨a, ha, rfl⟩ := List.mem_map.1 hstep
    obtain rfl : a.source = c := (mem_arcsOf.1 ha).1
    exact target_mem_reachable (ih (mem_reachable_iff.2 hpath)) (movedArc_mem h ha)

/-! ## Where control can arrive -/

/-- A place in another graph. -/
def movedPoint (g g' : Graph) (p : Point) : Point := ⟨g.moved g' p.block, p.index⟩

/-- A spot in another graph. -/
def movedSpot (g g' : Graph) : Spot → Spot
  | .start b => .start (g.moved g' b)
  | .statement p => .statement (g.movedPoint g' p)
  | .finish b => .finish (g.moved g' b)

theorem statement?_moved (h : g.Reorders g') (p : Point) : g'.statement? (g.movedPoint g' p) = g.statement? p := by
  unfold statement? movedPoint
  rw [statements_moved h]

theorem labelAt?_moved (h : g.Reorders g') (p : Point) : g'.labelAt? (g.movedPoint g' p) = g.labelAt? p := by
  unfold labelAt?
  rw [statement?_moved h]

theorem movedPoint_movedPoint (h : g.Reorders g') (p : Point) : g'.movedPoint g (g.movedPoint g' p) = p := by
  unfold movedPoint
  rw [moved_moved h]

theorem landsOn_moved (h : g.Reorders g') {s : Statement} {t : Nat} {q : Point} (hl : g.LandsOn s t q) :
    g'.LandsOn s (g.moved g' t) (g.movedPoint g' q) := by
  obtain ⟨rfl, j, name, hj, hk, hn, hq⟩ := hl
  exact ⟨rfl, j, name, hj, hk, hn, (labelAt?_moved h q).trans hq⟩

end Graph

/-- Control arrives at the same spots. -/
theorem Arrives.moved {g g' : Graph} (h : g.Reorders g') {x : Spot} (hx : Arrives g x) : Arrives g' (g.movedSpot g' x) := by
  have hat : ∀ {p : Point} {s : Statement}, g.statement? p = some s → g'.statement? (g.movedPoint g' p) = some s :=
    fun hs => (Graph.statement?_moved h _).trans hs
  have hto : ∀ {s : Statement} {t : Nat}, g.destination? s = some t → g'.destination? s = some (g.moved g' t) :=
    fun hd => (Graph.destination?_moved h _).trans (congrArg (Option.map _) hd)
  induction hx with
  | entry =>
    change Arrives g' (.start (g.moved g' g.entry))
    rw [← Graph.entry_moved h]
    exact .entry
  | switchLabel hs hw => exact .switchLabel (hat hs) hw
  | first _ hs ih => exact .first ih (hat hs)
  | next _ hs hn hs' ih => exact .next ih (hat hs) hn (hat hs')
  | land _ hs hd hl ih => exact .land ih (hat hs) (hto hd) (Graph.landsOn_moved h hl)
  | @enter p s t _ hs hd hl ih =>
    refine .enter ih (hat hs) (hto hd) fun q hq => ?_
    -- a landing in the other graph is one here
    have hback := Graph.landsOn_moved h.symm hq
    rw [Graph.moved_moved h] at hback
    exact hl _ hback
  | behindNothing _ hnil ih => exact .behindNothing ih ((Graph.statements_moved h _).trans hnil)
  | behindLast _ hs hn hlen ih =>
    exact .behindLast ih (hat hs) hn (hlen.trans (congrArg List.length (Graph.statements_moved h _).symm))
  | successor _ ht ih => exact .successor ih (Graph.successors_moved h _ ▸ List.mem_map_of_mem ht)

namespace Graph

variable {g g' : Graph}

theorem labelsUnique_moved (h : g.Reorders g') (hu : g.LabelsUnique) : g'.LabelsUnique := by
  intro p q name hp hq
  have heq := hu _ _ name ((labelAt?_moved h.symm p).trans hp) ((labelAt?_moved h.symm q).trans hq)
  rw [← movedPoint_movedPoint h.symm p, heq, movedPoint_movedPoint h.symm q]

/-- The live statements are those at which control can arrive. -/
theorem live_iff (hu : g.LabelsUnique) (p : Point) : g.liveness.isLive p = true ↔ Arrives g (.statement p) := by
  have hsound : g.SurveySound g.survey := survey_induct g.unscanned_sound fun _ hf h => h.advance hu hf
  have hscanned : g.SurveyScanned g.survey := survey_induct g.unscanned_scanned fun _ hf h => h.advance hu hf
  exact ⟨hsound.live p, fun h => known_of_arrives hscanned g.survey_pending h⟩

/-- The same statements are live. -/
theorem isLive_moved (h : g.Reorders g') (hu : g.LabelsUnique) (p : Point) :
    g'.liveness.isLive (g.movedPoint g' p) = g.liveness.isLive p := by
  rw [Bool.eq_iff_iff, live_iff (labelsUnique_moved h hu), live_iff hu]
  constructor
  · intro harr
    have hback := harr.moved h.symm
    rwa [movedSpot, movedPoint_movedPoint h] at hback
  · exact fun harr => harr.moved h

end Graph

end FlowLint.Flow
