import FlowLint.Proofs.Escape.Sweep

/-!
# What a converged analysis says

Sweeps stop at the first one that changes nothing (`run_cases`). Then each visited block starts from the join of the states that
leave the sources of its open arcs, each computed from the state at the start of the source (`stateAt?_of_converged`).
-/

namespace FlowLint.Escape

open FlowLint.Flow

namespace Dataflow

variable {d : Dataflow} {b : Nat}

/-- The order lists blocks once each, with the entry and all that arcs lead to, and the arcs are those of the graph. -/
structure Covers (d : Dataflow) : Prop where
  order_lt : ∀ b ∈ d.order, b < d.graph.size
  order_nodup : d.order.Nodup
  entry_mem : d.graph.entry ∈ d.order
  target_mem : ∀ a ∈ d.graph.arcsOf a.source, a.source ∈ d.order → a.target ∈ d.order
  incoming_eq : ∀ b, (d.incoming[b]?).getD [] = d.graph.incoming b

/-- The analysis of a graph visits the blocks that are reached. -/
theorem ofGraph_covers (g : Graph) : (ofGraph g).Covers where
  order_lt _ := Graph.lt_of_mem_reachable
  order_nodup := List.Pairwise.filter _ List.nodup_range
  entry_mem := g.entry_mem_reachable
  target_mem _ ha hs := Graph.target_mem_reachable hs ha
  incoming_eq b := by
    by_cases hb : b < g.size
    · simp [ofGraph, hb]
    · have hnil : g.incoming b = [] := by
        refine List.eq_nil_iff_forall_not_mem.2 fun a ha => hb ?_
        obtain ⟨hof, ht⟩ := Graph.mem_incoming.1 ha
        exact ht ▸ Graph.target_lt hof
      simp [ofGraph, hb, hnil]

/-! ## Runs -/

theorem after_succ (d : Dataflow) (n : Nat) : d.after (n + 1) = d.sweep (d.after n) := rfl

/-- Sweeps stop at the first one that changes nothing, or at the cap. -/
theorem sweeps_cases (d : Dataflow) (cap n : Nat) :
    (∃ k < cap, (∀ j < k, (d.after (n + j + 1)).changed = true) ∧ (d.after (n + k + 1)).changed = false ∧
      d.sweeps cap n (d.after n) = ⟨(d.after (n + k + 1)).ins, n + k + 1, true⟩) ∨
    ((∀ j < cap, (d.after (n + j + 1)).changed = true) ∧
      d.sweeps cap n (d.after n) = ⟨(d.after (n + cap)).ins, n + cap, false⟩) := by
  induction cap generalizing n with
  | zero => exact .inr ⟨fun j hj => absurd hj (Nat.not_lt_zero j), rfl⟩
  | succ cap ih =>
    have hnext : ∀ {k : Nat}, (d.after (n + 1)).changed = true → (∀ j < k, (d.after (n + 1 + j + 1)).changed = true) →
        ∀ j < k + 1, (d.after (n + j + 1)).changed = true := by
      intro k hc h j hj
      cases j with
      | zero => exact hc
      | succ j =>
        have := h j (Nat.lt_of_succ_lt_succ hj)
        rwa [show n + 1 + j + 1 = n + (j + 1) + 1 by omega] at this
    cases hc : (d.after (n + 1)).changed with
    | false =>
      refine .inl ⟨0, Nat.succ_pos cap, fun j hj => absurd hj (Nat.not_lt_zero j), hc, ?_⟩
      simp only [sweeps, ← after_succ, hc, Bool.false_eq_true, if_false, Nat.add_zero]
    | true =>
      have hrec : d.sweeps (cap + 1) n (d.after n) = d.sweeps cap (n + 1) (d.after (n + 1)) := by
        simp only [sweeps, ← after_succ, hc, if_true]
      rw [hrec]
      rcases ih (n + 1) with ⟨k, hk, hbefore, hlast, hrun⟩ | ⟨hall, hrun⟩
      · refine .inl ⟨k + 1, Nat.succ_lt_succ hk, hnext hc hbefore, ?_, ?_⟩
        · rwa [show n + (k + 1) + 1 = n + 1 + k + 1 by omega]
        · rw [hrun, show n + (k + 1) + 1 = n + 1 + k + 1 by omega]
      · refine .inr ⟨hnext hc hall, ?_⟩
        rw [hrun, show n + (cap + 1) = n + 1 + cap by omega]

/-- A run stops at the first sweep that changes nothing, or at the cap. -/
theorem run_cases (d : Dataflow) (cap : Nat) :
    (∃ k < cap, (∀ j < k, (d.after (j + 1)).changed = true) ∧ (d.after (k + 1)).changed = false ∧
      d.run cap = ⟨(d.after (k + 1)).ins, k + 1, true⟩) ∨
    ((∀ j < cap, (d.after (j + 1)).changed = true) ∧ d.run cap = ⟨(d.after cap).ins, cap, false⟩) := by
  have h := d.sweeps_cases cap 0
  simp only [Nat.zero_add] at h
  exact h

/-- A run converges exactly if one of its sweeps changes nothing. -/
theorem run_converged_iff (d : Dataflow) (cap : Nat) :
    (d.run cap).converged = true ↔ ∃ k < cap, (d.after (k + 1)).changed = false := by
  rcases d.run_cases cap with ⟨k, hk, -, hlast, hrun⟩ | ⟨hall, hrun⟩
  · exact ⟨fun _ => ⟨k, hk, hlast⟩, fun _ => by rw [hrun]⟩
  · rw [hrun]
    refine ⟨fun h => absurd h Bool.false_ne_true, fun ⟨k, hk, hlast⟩ => ?_⟩
    rw [hall k hk] at hlast
    exact absurd hlast.symm Bool.false_ne_true

/-- The states of a run are those behind its last sweep. -/
theorem run_ins (d : Dataflow) (cap : Nat) : (d.run cap).ins = (d.after (d.run cap).iterations).ins := by
  rcases d.run_cases cap with ⟨k, -, -, -, hrun⟩ | ⟨-, hrun⟩ <;> rw [hrun]

/-- As long as the sweeps before change something, a run ends with its last sweep. -/
theorem run_succ (d : Dataflow) {n : Nat} (h : ∀ j < n, (d.after (j + 1)).changed = true) :
    d.run (n + 1) = ⟨(d.after (n + 1)).ins, n + 1, !(d.after (n + 1)).changed⟩ := by
  rcases d.run_cases (n + 1) with ⟨k, hk, -, hlast, hrun⟩ | ⟨hall, hrun⟩
  · rcases Nat.lt_succ_iff_lt_or_eq.1 hk with hlt | rfl
    · rw [h k hlt] at hlast
      cases hlast
    · rw [hrun, hlast]
      rfl
  · rw [hrun, hall n (Nat.lt_succ_self n)]
    rfl

/-! ## Converged runs -/

/-- Before the first sweep nothing comes in. -/
theorem along?_start (d : Dataflow) (a : Arc) : along? d.start a = none := by
  unfold along? start
  cases a.jump with
  | none =>
    simp only [List.getElem?_replicate]
    split <;> rfl
  | some i => rfl

/-- What comes in along an arc comes from a visited block along an open arc. -/
theorem mem_order_of_along? (hd : d.Covers) {n : Nat} {a : Arc} {s : State} (h : along? (d.after n) a = some s) :
    a.source ∈ d.order ∧ d.isOpen a = true := by
  induction n with
  | zero =>
    rw [after, along?_start] at h
    cases h
  | succ n ih =>
    rcases along?_visits_cases (d.fits_after n).unchanged hd.order_lt h with h | h
    · exact h
    · rw [along?_unchanged] at h
      exact ih h

/-- Blocks that are not visited have no state. -/
theorem after_ins_of_not_mem (h : b ∉ d.order) (n : Nat) : ((d.after n).ins[b]?).join = none := by
  induction n with
  | zero =>
    simp only [after, start, List.getElem?_replicate]
    split <;> rfl
  | succ n ih =>
    rw [after_succ, sweep, visits_ins_of_not_mem h]
    exact ih

/-- What a block starts from in a sweep. -/
theorem sweep_ins (hd : d.Covers) {p : Progress} (hp : d.Fits p) {pre post : List Nat} (ho : d.order = pre ++ b :: post) :
    ((d.sweep p).ins[b]?).join = some (d.inputOf (pre.foldl d.visit { p with changed := false }) b) := by
  have hb : b ∈ d.order := ho ▸ List.mem_append_right pre List.mem_cons_self
  have hpost : b ∉ post := by
    have hnodup := hd.order_nodup
    rw [ho, List.nodup_append] at hnodup
    exact (List.nodup_cons.1 hnodup.2.1).1
  unfold sweep
  rw [ho]
  exact visits_ins hp.unchanged (hd.order_lt b hb) hpost

/-- Behind a sweep exactly the blocks that are visited have a state. -/
theorem exists_after_ins_iff (hd : d.Covers) (n : Nat) : (∃ s, ((d.after (n + 1)).ins[b]?).join = some s) ↔ b ∈ d.order := by
  constructor
  · rintro ⟨s, hs⟩
    refine Decidable.by_contra fun hb => ?_
    rw [after_ins_of_not_mem hb] at hs
    cases hs
  · intro hb
    obtain ⟨pre, post, ho⟩ := List.append_of_mem hb
    exact ⟨_, sweep_ins hd (d.fits_after n) ho⟩

/-- After a run, converged or not, exactly the blocks that are visited have a state. -/
theorem exists_stateAt?_iff (hd : d.Covers) {cap : Nat} (hcap : 1 ≤ cap) :
    (∃ s, (d.run cap).stateAt? b = some s) ↔ b ∈ d.order := by
  have hsweeps : ∃ n, (d.run cap).iterations = n + 1 := by
    rcases d.run_cases cap with ⟨k, -, -, -, hrun⟩ | ⟨-, hrun⟩
    · exact ⟨k, by rw [hrun]⟩
    · exact ⟨cap - 1, by rw [hrun, Nat.sub_add_cancel hcap]⟩
  obtain ⟨n, hn⟩ := hsweeps
  unfold Outcome.stateAt?
  rw [run_ins, hn]
  exact exists_after_ins_iff hd n

/-- Behind a sweep that notes no change nothing changes any more. -/
theorem along?_after_of_settled (hd : d.Covers) {n : Nat} (h : (d.after (n + 1)).changed = false) (k : Nat) (a : Arc) :
    along? (d.after (n + k)) a = along? (d.after n) a := by
  have hset : d.Settled (d.after n) d.order := (sweep_changed_iff (d.fits_after n) hd.order_lt).1 h
  induction k generalizing a with
  | zero => rfl
  | succ k ih =>
    have hset' : d.Settled (d.after (n + k)) d.order := hset.congr fun a => (ih a).symm
    rw [← Nat.add_assoc, after_succ, along?_sweep_of_settled (d.fits_after _) hd.order_lt hset', ih]

/-- What leaves the source of an arc along it by the outcome of an analysis, if states leave along it. -/
def carried (d : Dataflow) (o : Outcome) (a : Arc) : Option State :=
  if d.isOpen a then (o.stateAt? a.source).map (d.flowAlong a) else none

/-- All visits of a sweep that changes nothing start from what was known before it. -/
theorem after_ins_of_unchanged (hd : d.Covers) {k : Nat} (h : (d.after (k + 1)).changed = false) (hb : b ∈ d.order) :
    ((d.after (k + 1)).ins[b]?).join = some (d.inputOf (d.after k) b) := by
  have hp := d.fits_after k
  have hset : d.Settled (d.after k) d.order := (sweep_changed_iff hp hd.order_lt).1 h
  obtain ⟨pre, post, ho⟩ := List.append_of_mem hb
  rw [after_succ, sweep_ins hd hp ho, inputOf_congr (along?_visits_of_settled_order hp hd.order_lt hset ho)]

/-- Behind a sweep that changes nothing, what comes in along an arc is what it carries by the states of the sweep. -/
theorem along?_of_unchanged (hd : d.Covers) {k : Nat} (h : (d.after (k + 1)).changed = false) {o : Outcome}
    (hat : ∀ b, o.stateAt? b = ((d.after (k + 1)).ins[b]?).join) : along? (d.after k) = d.carried o := by
  have hset : d.Settled (d.after k) d.order := (sweep_changed_iff (d.fits_after k) hd.order_lt).1 h
  funext a
  unfold carried
  by_cases ha : a.source ∈ d.order ∧ d.isOpen a = true
  · rw [hset a ha.1 ha.2, if_pos ha.2, hat, after_ins_of_unchanged hd h ha.1]
    rfl
  · cases hk : along? (d.after k) a with
    | some s => exact absurd (mem_order_of_along? hd hk) ha
    | none =>
      split
      · rename_i ho
        rw [hat, after_ins_of_not_mem fun hs => ha ⟨hs, ho⟩]
        rfl
      · rfl

/-- A converged analysis: the states at the starts of the visited blocks are the joins of what their arcs carry. -/
theorem stateAt?_of_converged (hd : d.Covers) {cap : Nat} (h : (d.run cap).converged = true) :
    (∀ b ∈ d.order, (d.run cap).stateAt? b =
      some (((d.graph.incoming b).filterMap (d.carried (d.run cap))).foldl State.join (d.seed b))) ∧
    ∀ b, b ∉ d.order → (d.run cap).stateAt? b = none := by
  obtain ⟨k, -, -, hlast, hrun⟩ | ⟨-, hrun⟩ := d.run_cases cap
  · have hat : ∀ b, (d.run cap).stateAt? b = ((d.after (k + 1)).ins[b]?).join := fun b => by
      rw [hrun]
      rfl
    refine ⟨fun b hb => ?_, fun b hb => ?_⟩
    · rw [hat, after_ins_of_unchanged hd hlast hb, inputOf_eq, hd.incoming_eq, along?_of_unchanged hd hlast hat]
    · rw [hat, after_ins_of_not_mem hb]
  · rw [hrun] at h
    exact absurd h Bool.false_ne_true

/-- In a converged analysis a block has at its start what an open arc carries to it from the state of its source. -/
theorem flowAlong_le_of_converged (hd : d.Covers) {cap : Nat} (h : (d.run cap).converged = true) {a : Arc}
    (ha : a ∈ d.graph.arcsOf a.source) (ho : d.isOpen a = true) {s : State} (hs : (d.run cap).stateAt? a.source = some s) :
    ∃ s', (d.run cap).stateAt? a.target = some s' ∧ d.flowAlong a s ≤ s' := by
  obtain ⟨hat, hnone⟩ := stateAt?_of_converged hd h
  have hsource : a.source ∈ d.order := by
    refine Decidable.by_contra fun hmem => ?_
    rw [hnone _ hmem] at hs
    cases hs
  have hcarried : d.carried (d.run cap) a = some (d.flowAlong a s) := by
    rw [carried, if_pos ho, hs]
    rfl
  exact ⟨_, hat _ (hd.target_mem a ha hsource),
    State.le_foldl_join_of_mem (List.mem_filterMap.2 ⟨a, Graph.mem_incoming.2 ⟨ha, rfl⟩, hcarried⟩)⟩

/-! ## Larger caps -/

/-- A converged run is the run of all larger caps: it has stopped at a sweep that comes first for them too. -/
theorem run_eq_of_le {cap cap' : Nat} (hle : cap ≤ cap') (h : (d.run cap).converged = true) : d.run cap' = d.run cap := by
  obtain ⟨k, hk, hbefore, hlast, hrun⟩ | ⟨-, hrun⟩ := d.run_cases cap
  · obtain ⟨k', -, hbefore', hlast', hrun'⟩ | ⟨hall, -⟩ := d.run_cases cap'
    · obtain hlt | rfl | hlt := Nat.lt_trichotomy k k'
      · exact absurd ((hbefore' k hlt).symm.trans hlast) (by decide)
      · rw [hrun, hrun']
      · exact absurd ((hbefore k' hlt).symm.trans hlast') (by decide)
    · exact absurd ((hall k (Nat.lt_of_lt_of_le hk hle)).symm.trans hlast) (by decide)
  · rw [hrun] at h
    exact absurd h Bool.false_ne_true

/-- A converged run is that of every larger cap, in its sweeps, its states and its leaks, and its states close all equations: exactly
the blocks to which arcs lead from the entry have one, and it is the join of the initial state, at the entry, with what each open
arc from such a block carries. -/
theorem run_closed_of_converged (g : Graph) {cap cap' : Nat} (hle : cap ≤ cap')
    (h : ((ofGraph g).run cap).converged = true) :
    (ofGraph g).run cap' = (ofGraph g).run cap ∧
    (ofGraph g).leaks ((ofGraph g).run cap') = (ofGraph g).leaks ((ofGraph g).run cap) ∧
    (∀ b, (∃ s, ((ofGraph g).run cap).stateAt? b = some s) ↔ Relation.ReflTransGen g.Leads g.entry b) ∧
    ∀ b, Relation.ReflTransGen g.Leads g.entry b → ((ofGraph g).run cap).stateAt? b =
      some (((g.incoming b).filterMap ((ofGraph g).carried ((ofGraph g).run cap))).foldl State.join ((ofGraph g).seed b)) := by
  have hd := ofGraph_covers g
  have hsame := run_eq_of_le hle h
  have hcap : 1 ≤ cap := by
    obtain ⟨k, hk, -⟩ := (run_converged_iff _ cap).1 h
    exact Nat.one_le_of_lt hk
  exact ⟨hsame, congrArg _ hsame, fun b => (exists_stateAt?_iff hd hcap).trans Graph.mem_reachable_iff,
    fun b hb => (stateAt?_of_converged hd h).1 b (Graph.mem_reachable_iff.2 hb)⟩

/-- A function that starts in a loop, in which a pointer gets the address of an array, and that returns the pointer. -/
def entryLoop : Graph where
  function :=
    let array : CType := .array (.char .char) (some 8)
    let pointer : CType := .pointer (.char .char)
    let p : Expr := .var ⟨pointer, .zero⟩ 1
    { (default : Function) with
      returnType := pointer
      vars := [⟨0, "x", array, .automatic, .localVar, false, .zero⟩, ⟨1, "p", pointer, .automatic, .localVar, false, .zero⟩]
      blocks :=
        [⟨0, [⟨.other, .zero⟩, ⟨.assign p (.var ⟨array, .zero⟩ 0), .zero⟩, ⟨.other, .zero⟩], [0, 1]⟩,
         ⟨1, [⟨.jump ⟨.return, none, none, some p⟩, .zero⟩], []⟩] }
  faultless := rfl

/-- The run settles in its second sweep and is that of a hundred sweeps. Its `return` leaks the array; the entry starts with nothing
known, and with the address of the array from the loop. -/
theorem run_entryLoop :
    3 ≤ 100 ∧ ((ofGraph entryLoop).run 3).converged = true ∧
      (ofGraph entryLoop).run 100 = (ofGraph entryLoop).run 3 ∧ ((ofGraph entryLoop).run 3).iterations = 2 ∧
      (∃ s, ((ofGraph entryLoop).run 3).stateAt? 0 = some s ∧ .stack 0 ∈ s.atOrEmpty 1) ∧
      ⟨0, some 1, .returned .zero false⟩ ∈ (ofGraph entryLoop).leaks ((ofGraph entryLoop).run 100) := by
  have hconverged : ((ofGraph entryLoop).run 3).converged = true := by decide +kernel
  obtain ⟨hsame, hleaks, hstates, hclosed⟩ := run_closed_of_converged entryLoop (by decide : 3 ≤ 100) hconverged
  refine ⟨by decide, hconverged, hsame, by decide +kernel, ⟨_, hclosed 0 .refl, ?_⟩, ?_⟩
  · change Origin.stack 0 ∈ (State.atOrEmpty _ 1).toList
    decide +kernel
  · rw [hleaks]
    change _ ∈ (OrdSet.toList _)
    decide +kernel

end Dataflow

end FlowLint.Escape
