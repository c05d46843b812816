import FlowLint.Proofs.Escape.Path
import FlowLint.Proofs.Flow.Roots

/-!
# Which live statements are inspected

The analysis visits the blocks to which arcs lead from the entry. Statements may be live elsewhere, since a label of a `switch` is
live wherever it stands: what a live statement lets out is inspected exactly if arcs lead to its block from the entry, and all
live statements are inspected exactly if arcs lead from the entry to all blocks with labels of a `switch`
(`inspects_iff_leads`).
-/

namespace FlowLint.Escape

open FlowLint.Flow FlowLint.Escape.Frame

namespace Dataflow

variable {d : Dataflow} {o : Outcome} {p : Point} {x : Statement}

/-- A statement is inspected by an outcome: its block has a state, and what the statement lets out in the state in front of it is
among the leaks. -/
def Inspects (d : Dataflow) (o : Outcome) (p : Point) (x : Statement) : Prop :=
  ∃ s, o.stateAt? p.block = some s ∧ ∀ l ∈ leaksOf ⟨d.graph.function, d.flow p.block p.index s⟩ x, l ∈ d.leaks o

/-- A live statement is inspected exactly if its block has a state. -/
theorem inspects_iff (hx : d.liveAt? p = some x) : d.Inspects o p x ↔ ∃ s, o.stateAt? p.block = some s := by
  constructor
  · rintro ⟨s, hs, -⟩
    exact ⟨s, hs⟩
  · rintro ⟨s, hs⟩
    refine ⟨s, hs, fun l hl => mem_leaks.2 ⟨p.block, ?_, s, hs, mem_leaksFrom.2 ⟨p.index, x, hx, hl⟩⟩⟩
    exact Graph.block_lt (liveAt?_eq_some_iff.1 hx).1

/-- In the analysis of a graph, a live statement is inspected exactly if arcs lead to its block from the entry. -/
theorem inspects_run_iff {g : Graph} {cap : Nat} (hcap : 1 ≤ cap) (hx : (ofGraph g).liveAt? p = some x) :
    (ofGraph g).Inspects ((ofGraph g).run cap) p x ↔ Relation.ReflTransGen g.Leads g.entry p.block := by
  rw [inspects_iff hx, exists_stateAt?_iff (ofGraph_covers g) hcap]
  exact Graph.mem_reachable_iff

/-- Arcs lead to the block of a live statement from the entry or from a block with a label of a `switch`. The statement is
inspected exactly if they lead there from the entry, and all live statements are inspected exactly if arcs lead from the entry to
all blocks with labels of a `switch`. -/
theorem inspects_iff_leads (g : Graph) {cap : Nat} (hcap : 1 ≤ cap) :
    (∀ p x, (ofGraph g).liveAt? p = some x →
      g.FromRoot p.block ∧
      ((ofGraph g).Inspects ((ofGraph g).run cap) p x ↔ Relation.ReflTransGen g.Leads g.entry p.block)) ∧
    ((∀ p x, (ofGraph g).liveAt? p = some x → (ofGraph g).Inspects ((ofGraph g).run cap) p x) ↔
      ∀ b ∈ g.switchTargets, Relation.ReflTransGen g.Leads g.entry b) := by
  have hroot : ∀ p x, (ofGraph g).liveAt? p = some x → g.FromRoot p.block :=
    fun p x hx => Graph.fromRoot_of_isLive (liveAt?_eq_some_iff.1 hx).2
  refine ⟨fun p x hx => ⟨hroot p x hx, inspects_run_iff hcap hx⟩, fun h b hb => ?_, fun h p x hx => ?_⟩
  · obtain ⟨i, x, hs, hw⟩ := Graph.mem_switchTargets.1 hb
    have hx : (ofGraph g).liveAt? ⟨b, i⟩ = some x := liveAt?_eq_some_iff.2 ⟨hs, Graph.isLive_of_isSwitchLabel hs hw⟩
    exact (inspects_run_iff hcap hx).1 (h ⟨b, i⟩ x hx)
  · obtain ⟨r, hr, hleads⟩ := hroot p x hx
    refine (inspects_run_iff hcap hx).2 ?_
    rcases List.mem_cons.1 hr with rfl | hr
    · exact hleads
    · exact (h r hr).trans hleads

/-- A function whose only `return` follows a `case` label, with a `switch` that may list the block of the label or not. -/
def caseOf (listed : Bool) : Graph where
  function :=
    let array : CType := .array (.char .char) (some 8)
    { (default : Function) with
      returnType := .pointer (.char .char)
      vars := [⟨0, "x", array, .automatic, .localVar, false, .zero⟩]
      blocks :=
        [⟨0, [⟨.other, .zero⟩], if listed then [1] else []⟩,
         ⟨1, [⟨.label "1" .case, .zero⟩, ⟨.jump ⟨.return, none, none, some (.var ⟨array, .zero⟩ 0)⟩, .zero⟩], []⟩] }
  faultless := by cases listed <;> rfl

/-- If the block is listed, the `return` is inspected, and its leak is found. -/
theorem inspects_caseOf :
    1 ≤ 10 ∧ (ofGraph (caseOf true)).Inspects ((ofGraph (caseOf true)).run 10) ⟨1, 1⟩
        ⟨.jump ⟨.return, none, none, some (.var ⟨.array (.char .char) (some 8), .zero⟩ 0)⟩, .zero⟩ ∧
      ⟨0, none, .returned .zero false⟩ ∈ (ofGraph (caseOf true)).leaks ((ofGraph (caseOf true)).run 10) := by
  have hleads : Relation.ReflTransGen (caseOf true).Leads (caseOf true).entry 1 :=
    .single (Graph.leads_of_mem_successors (b := 0) (List.mem_singleton_self 1))
  have hall := (@inspects_iff_leads (caseOf true) 10 (by decide)).2.2 fun b hb => by
    obtain rfl : b = 1 := List.mem_singleton.1 hb
    exact hleads
  refine ⟨by decide, hall ⟨1, 1⟩ _ (liveAt?_eq_some_iff.2 ⟨rfl, by decide +kernel⟩), ?_⟩
  change _ ∈ (OrdSet.toList _)
  decide +kernel

/-- If it is not, the `return` is live all the same, but its block has no state, and the leak is missed. -/
theorem not_inspects_caseOf :
    (ofGraph (caseOf false)).live.isLive ⟨1, 1⟩ = true ∧ ((ofGraph (caseOf false)).run 10).stateAt? 1 = none ∧
      (ofGraph (caseOf false)).leaks ((ofGraph (caseOf false)).run 10) = .empty := by
  decide +kernel

end Dataflow

end FlowLint.Escape
