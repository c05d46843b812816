import Mathlib.Data.List.Induction
import FlowLint.Proofs.Escape.DeadEnd
import FlowLint.Proofs.Flow.BlockOrder

/-!
# The order of visits

Blocks are visited in the order in which the function lists them, so that a block may be visited before anything comes in. What
early visits find beyond the end of a converged run in another order is what a write through a reference replaces in the end and
did not replace then. If there is no such write, both orders find the same leaks (`leaks_eq_of_reorders`), and so they do if no
assignment goes to a reference (`leaks_eq_of_assignsNoReference`); otherwise a loop may keep for ever what an early visit left
(`leaks_reboundEntryLast_ne`).
-/

namespace FlowLint.Escape

open FlowLint.Flow FlowLint.Escape.Frame

namespace Dataflow

variable {d : Dataflow} {final : Nat → State} {p : Progress} {b : Nat} {s t : State}

/-! ## Runs below a fixed point -/

/-- The live statements of a block replace, from one state at its start, all that they replace from another one. -/
def ReplacesFrom (d : Dataflow) (b : Nat) (t s : State) : Prop :=
  ∀ i < (d.graph.statements b).length, ∀ x ∈ d.liveAt? ⟨b, i⟩, ReplacesIn d.graph.function x (d.flow b i t) (d.flow b i s)

/-- At all visits of some sweeps the live statements replace all that they replace from given states. -/
def ReplacesAtVisits (d : Dataflow) (sweeps : Nat) (final : Nat → State) : Prop :=
  ∀ n < sweeps, ∀ b ∈ d.order, ∀ s ∈ ((d.after (n + 1)).ins[b]?).join, d.ReplacesFrom b (final b) s

instance (d : Dataflow) (b : Nat) (t s : State) : Decidable (d.ReplacesFrom b t s) :=
  inferInstanceAs (Decidable (∀ i < (d.graph.statements b).length, ∀ x ∈ d.liveAt? ⟨b, i⟩,
    ReplacesIn d.graph.function x (d.flow b i t) (d.flow b i s)))

instance (d : Dataflow) (sweeps : Nat) (final : Nat → State) : Decidable (d.ReplacesAtVisits sweeps final) :=
  inferInstanceAs (Decidable (∀ n < sweeps, ∀ b ∈ d.order, ∀ s ∈ ((d.after (n + 1)).ins[b]?).join,
    d.ReplacesFrom b (final b) s))

/-- States at the starts of blocks that have the local variables of the initial state and of what leaves the blocks. -/
structure HoldsLocals (d : Dataflow) (final : Nat → State) : Prop where
  seed : ∀ b ∈ d.order, (d.seed b).LocalsIn (final b)
  flow : ∀ a ∈ d.graph.arcsOf a.source, a.source ∈ d.order → d.isOpen a = true →
    (d.flowAlong a (final a.source)).LocalsIn (final a.target)

/-- What comes in along arcs has no other local variables than the states at their targets. -/
def LocalsAlong (d : Dataflow) (final : Nat → State) (p : Progress) : Prop :=
  ∀ a ∈ d.graph.arcsOf a.source, ∀ s, along? p a = some s → s.LocalsIn (final a.target)

theorem ReplacesFrom.flow_localsIn (hr : d.ReplacesFrom b t s) (h : s.LocalsIn t) (i : Nat) :
    (d.flow b i s).LocalsIn (d.flow b i t) :=
  flow_localsIn_of_replaces h (fun i x hx => hr i (Graph.index_lt (liveAt?_eq_some_iff.1 hx).1) x hx) i

theorem LocalsAlong.inputOf (hd : d.Covers) (hf : d.HoldsLocals final) (h : d.LocalsAlong final p) (hb : b ∈ d.order) :
    (d.inputOf p b).LocalsIn (final b) := by
  rw [inputOf_eq, hd.incoming_eq]
  refine (hf.seed b hb).foldl_join fun s hmem => ?_
  obtain ⟨a, ha, hs⟩ := List.mem_filterMap.1 hmem
  obtain ⟨harc, rfl⟩ := Graph.mem_incoming.1 ha
  exact h a harc s hs

/-- A visit brings no other local variables. -/
theorem LocalsAlong.visit (hd : d.Covers) (hp : d.Fits p) (hf : d.HoldsLocals final) (h : d.LocalsAlong final p)
    (hb : b ∈ d.order) (hr : d.ReplacesFrom b (final b) (d.inputOf p b)) : d.LocalsAlong final (d.visit p b) := by
  intro a ha s hs
  rw [along?_visit (hp.outs_length ▸ hd.order_lt b hb)] at hs
  split at hs
  · rename_i hopen
    obtain ⟨rfl, hopen⟩ := hopen
    rw [← Option.some.inj hs]
    exact (hr.flow_localsIn (h.inputOf hd hf hb) _).trans (hf.flow a ha hb hopen)
  · exact h a ha s hs

/-- The first visits of a sweep bring no other local variables. -/
theorem LocalsAlong.visits (hd : d.Covers) (hp : d.Fits p) (hf : d.HoldsLocals final) (h : d.LocalsAlong final p)
    (hr : ∀ b ∈ d.order, ∀ s ∈ ((d.sweep p).ins[b]?).join, d.ReplacesFrom b (final b) s) {pre post : List Nat}
    (ho : d.order = pre ++ post) : d.LocalsAlong final (pre.foldl d.visit { p with changed := false }) := by
  induction pre using List.reverseRecOn generalizing post with
  | nil => exact fun a ha s hs => h a ha s (along?_unchanged p a ▸ hs)
  | append_singleton pre b ih =>
    have ho' : d.order = pre ++ b :: post := by simp [ho]
    have hb : b ∈ d.order := ho' ▸ List.mem_append_right pre List.mem_cons_self
    rw [List.foldl_append]
    exact (ih ho').visit hd (hp.unchanged.visits pre) hf hb (hr b hb _ (sweep_ins hd hp ho'))

/-- Without assignments to references all visits replace the same. -/
theorem replacesAtVisits_of_assignsNoReference (hf : AssignsNoReference d.graph.function) (sweeps : Nat) (final : Nat → State) :
    d.ReplacesAtVisits sweeps final := by
  intro n _ b _ s _ i _ x hx
  exact hf.replacesIn hx _ _

/-- Sweeps find no other local variables than states that have those of all that leaves the blocks. -/
theorem after_localsIn (hd : d.Covers) (hf : d.HoldsLocals final) {n : Nat} (hr : d.ReplacesAtVisits n final) :
    d.LocalsAlong final (d.after n) ∧ ∀ b (s : State), ((d.after n).ins[b]?).join = some s → s.LocalsIn (final b) := by
  induction n with
  | zero =>
    refine ⟨fun a _ s hs => ?_, fun b s hs => ?_⟩
    · rw [after, along?_start] at hs
      cases hs
    · simp only [after, start, List.getElem?_replicate] at hs
      split at hs <;> cases hs
  | succ n ih =>
    obtain ⟨halong, -⟩ := ih fun k hk => hr k (Nat.lt_succ_of_lt hk)
    have hvisits : ∀ {pre post : List Nat}, d.order = pre ++ post →
        d.LocalsAlong final (pre.foldl d.visit { d.after n with changed := false }) :=
      fun ho => halong.visits hd (d.fits_after n) hf (hr n (Nat.lt_succ_self n)) ho
    refine ⟨hvisits (List.append_nil d.order).symm, fun b s hs => ?_⟩
    by_cases hb : b ∈ d.order
    · obtain ⟨pre, post, ho⟩ := List.append_of_mem hb
      rw [after_succ, sweep_ins hd (d.fits_after n) ho] at hs
      rw [← Option.some.inj hs]
      exact (hvisits ho).inputOf hd hf hb
    · rw [after_ins_of_not_mem hb] at hs
      cases hs

/-! ## The same blocks in another order -/

section

variable {g g' : Graph}

theorem liveAt?_moved (h : g.Reorders g') (hu : g.LabelsUnique) (p : Point) :
    (ofGraph g').liveAt? (g.movedPoint g' p) = (ofGraph g).liveAt? p := by
  change (g'.statement? (g.movedPoint g' p)).filter (fun _ => g'.liveness.isLive (g.movedPoint g' p)) =
    (g.statement? p).filter fun _ => g.liveness.isLive p
  rw [Graph.statement?_moved h, Graph.isLive_moved h hu]

theorem transfer_moved (h : g.Reorders g') (s : State) (x : Statement) : transfer g'.function s x = transfer g.function s x := by
  rw [h.function, transfer_withBlocks]

theorem flow_moved (h : g.Reorders g') (hu : g.LabelsUnique) (b i : Nat) (s : State) :
    (ofGraph g').flow (g.moved g' b) i s = (ofGraph g).flow b i s := by
  induction i with
  | zero => rfl
  | succ i ih =>
    have hlive := liveAt?_moved h hu ⟨b, i⟩
    cases hx : (ofGraph g).liveAt? ⟨b, i⟩ with
    | none =>
      rw [hx] at hlive
      rw [flow_succ_of_dead hx, flow_succ_of_dead hlive, ih]
    | some x =>
      rw [hx] at hlive
      rw [flow_succ_of_live hx, flow_succ_of_live hlive, ih]
      exact transfer_moved h _ x

theorem flowAlong_moved (h : g.Reorders g') (hu : g.LabelsUnique) (a : Arc) (s : State) :
    (ofGraph g').flowAlong (g.movedArc g' a) s = (ofGraph g).flowAlong a s := by
  have hlen : ((ofGraph g').graph.statements (g.movedArc g' a).source).length = ((ofGraph g).graph.statements a.source).length :=
    congrArg List.length (Graph.statements_moved h a.source)
  unfold flowAlong
  rw [hlen]
  exact flow_moved h hu a.source _ s

theorem isOpen_moved (h : g.Reorders g') (hu : g.LabelsUnique) (a : Arc) :
    (ofGraph g').isOpen (g.movedArc g' a) = (ofGraph g).isOpen a := by
  obtain ⟨source, jump, target⟩ := a
  cases jump with
  | none => rfl
  | some i =>
    rw [Bool.eq_iff_iff]
    change (ofGraph g').live.isLiveJump (ofGraph g').graph (g.movedPoint g' ⟨source, i⟩) = true ↔
      (ofGraph g).live.isLiveJump (ofGraph g).graph ⟨source, i⟩ = true
    rw [isLiveJump_iff, isLiveJump_iff, liveAt?_moved h hu]

theorem seed_moved (h : g.Reorders g') (b : Nat) : (ofGraph g').seed (g.moved g' b) = (ofGraph g).seed b := by
  have hentry : g.moved g' b = g'.entry ↔ b = g.entry := by
    rw [Graph.entry_moved h]
    constructor
    · intro heq
      rw [← Graph.moved_moved h b, heq, Graph.moved_moved h]
    · exact fun heq => heq ▸ rfl
  have hinitial : initial g'.function = initial g.function := by
    rw [h.function]
    rfl
  change (if g.moved g' b = g'.entry then initial g'.function else .empty) =
    if b = g.entry then initial g.function else .empty
  rw [hinitial]
  exact if_congr hentry rfl rfl

/-- The state at the start of a block by an outcome for another order of the blocks. -/
def stateIn (g g' : Graph) (o : Outcome) (b : Nat) : State := (o.stateAt? (g.moved g' b)).getD .empty

/-- The states of a converged analysis have the local variables that leave the blocks in another order as well. -/
theorem holdsLocals_stateIn (h : g.Reorders g') (hu : g.LabelsUnique) {cap : Nat}
    (hc : ((ofGraph g').run cap).converged = true) :
    (ofGraph g).HoldsLocals (stateIn g g' ((ofGraph g').run cap)) := by
  obtain ⟨hat, -⟩ := stateAt?_of_converged (ofGraph_covers g') hc
  have hstate : ∀ b ∈ (ofGraph g).order, ((ofGraph g').run cap).stateAt? (g.moved g' b) =
      some (stateIn g g' ((ofGraph g').run cap) b) := by
    intro b hb
    unfold stateIn
    rw [hat _ (Graph.moved_mem_reachable h hb)]
    rfl
  refine ⟨fun b hb => ?_, fun a ha hs ho => ?_⟩
  · have hb' := hat _ (Graph.moved_mem_reachable h hb)
    rw [hstate b hb, Option.some.injEq, seed_moved h] at hb'
    rw [hb']
    exact .of_le (State.le_foldl_join _ _)
  · have ht : a.target ∈ (ofGraph g).order := (ofGraph_covers g).target_mem a ha hs
    have ht' := hat _ (Graph.moved_mem_reachable h ht)
    rw [hstate _ ht, Option.some.injEq] at ht'
    rw [ht']
    refine .of_le (State.le_foldl_join_of_mem (List.mem_filterMap.2 ⟨g.movedArc g' a, ?_, ?_⟩))
    · exact Graph.mem_incoming.2 ⟨Graph.movedArc_mem h ha, rfl⟩
    · have hsource : ((ofGraph g').run cap).stateAt? (g.movedArc g' a).source = _ := hstate _ hs
      unfold carried
      rw [isOpen_moved h hu, if_pos ho, hsource, Option.map_some, flowAlong_moved h hu]

/-- Behind its live statements a block has no other local variables than by a converged run in another order. -/
theorem stateAt?_localsIn (h : g.Reorders g') (hu : g.LabelsUnique) {cap cap' : Nat}
    (hc' : ((ofGraph g').run cap').converged = true)
    (hr : (ofGraph g).ReplacesAtVisits ((ofGraph g).run cap).iterations (stateIn g g' ((ofGraph g').run cap')))
    {b : Nat} {s : State} (hs : ((ofGraph g).run cap).stateAt? b = some s) :
    b ∈ (ofGraph g).order ∧
      ∀ i, ((ofGraph g).flow b i s).LocalsIn ((ofGraph g).flow b i (stateIn g g' ((ofGraph g').run cap') b)) := by
  have hins : (((ofGraph g).after ((ofGraph g).run cap).iterations).ins[b]?).join = some s := by
    rw [← run_ins]
    exact hs
  have hb : b ∈ (ofGraph g).order := by
    by_contra hb
    rw [after_ins_of_not_mem hb] at hins
    cases hins
  have hin := (after_localsIn (ofGraph_covers g) (holdsLocals_stateIn h hu hc') hr).2 b s hins
  refine ⟨hb, ReplacesFrom.flow_localsIn ?_ hin⟩
  cases hm : ((ofGraph g).run cap).iterations with
  | zero =>
    rw [hm] at hins
    simp only [after, start, List.getElem?_replicate] at hins
    split at hins <;> cases hins
  | succ n =>
    rw [hm] at hr hins
    exact hr n (Nat.lt_succ_self n) b hb s hins

/-- What leaks by a converged run leaks by a converged run in another order, if the live statements replace at all visits of
either run what they replace at the end of the other one. -/
theorem mem_leaks_of_reorders (h : g.Reorders g') (hu : g.LabelsUnique) {cap cap' : Nat}
    (hc : ((ofGraph g).run cap).converged = true) (hc' : ((ofGraph g').run cap').converged = true)
    (hr : (ofGraph g).ReplacesAtVisits ((ofGraph g).run cap).iterations (stateIn g g' ((ofGraph g').run cap')))
    (hr' : (ofGraph g').ReplacesAtVisits ((ofGraph g').run cap').iterations (stateIn g' g ((ofGraph g).run cap)))
    {l : Leak} (hl : l ∈ (ofGraph g).leaks ((ofGraph g).run cap)) : l ∈ (ofGraph g').leaks ((ofGraph g').run cap') := by
  obtain ⟨b, hb, s, hs, hl⟩ := mem_leaks.1 hl
  obtain ⟨i, x, hx, hl⟩ := mem_leaksFrom.1 hl
  obtain ⟨hmem, hin⟩ := stateAt?_localsIn h hu hc' hr hs
  obtain ⟨t, ht⟩ : ∃ t, ((ofGraph g').run cap').stateAt? (g.moved g' b) = some t :=
    ⟨_, (stateAt?_of_converged (ofGraph_covers g') hc').1 _ (Graph.moved_mem_reachable h hmem)⟩
  have ht' : stateIn g g' ((ofGraph g').run cap') b = t := by rw [stateIn, ht]; rfl
  have hs' : stateIn g' g ((ofGraph g).run cap) (g.moved g' b) = s := by rw [stateIn, Graph.moved_moved h, hs]; rfl
  have hback := (stateAt?_localsIn h.symm (Graph.labelsUnique_moved h hu) hc hr' ht).2 i
  rw [hs', flow_moved h hu, flow_moved h hu] at hback
  have hforth := hin i
  rw [ht'] at hforth
  refine mem_leaks.2 ⟨_, Graph.moved_lt h hb, t, ht, mem_leaksFrom.2 ⟨i, x, (liveAt?_moved h hu ⟨b, i⟩).trans hx, ?_⟩⟩
  have hleak := mem_leaksOf_of_localsIn hforth hl fun _ => hback
  rw [flow_moved h hu]
  change l ∈ leaksOf ⟨g'.function, _⟩ x
  rw [h.function, leaksOf_withBlocks]
  exact hleak

/-- Converged runs over the same blocks in two orders find the same leaks, if no name labels two statements, and if the live
statements replace at all visits of either run what they replace at the end of the other one. -/
theorem leaks_eq_of_reorders (h : g.Reorders g') (hu : g.LabelsUnique) {cap cap' : Nat}
    (hc : ((ofGraph g).run cap).converged = true) (hc' : ((ofGraph g').run cap').converged = true)
    (hr : (ofGraph g).ReplacesAtVisits ((ofGraph g).run cap).iterations (stateIn g g' ((ofGraph g').run cap')))
    (hr' : (ofGraph g').ReplacesAtVisits ((ofGraph g').run cap').iterations (stateIn g' g ((ofGraph g).run cap))) :
    (ofGraph g).leaks ((ofGraph g).run cap) = (ofGraph g').leaks ((ofGraph g').run cap') :=
  OrdSet.ext fun _ => ⟨mem_leaks_of_reorders h hu hc hc' hr hr',
    mem_leaks_of_reorders h.symm (Graph.labelsUnique_moved h hu) hc' hc hr' hr⟩

theorem assignsNoReference_of_reorders (h : g.Reorders g') (hf : AssignsNoReference g.function) :
    AssignsNoReference g'.function := by
  intro x hx v hv
  have hmem : x ∈ g.function.statements := (h.blocks.flatMap_right Block.statements).mem_iff.2 hx
  rw [h.function]
  exact hf x hmem v hv

/-- The order of the blocks changes no leak of a function that assigns to no reference. -/
theorem leaks_eq_of_assignsNoReference (h : g.Reorders g') (hu : g.LabelsUnique) (hf : AssignsNoReference g.function)
    {cap cap' : Nat} (hc : ((ofGraph g).run cap).converged = true) (hc' : ((ofGraph g').run cap').converged = true) :
    (ofGraph g).leaks ((ofGraph g).run cap) = (ofGraph g').leaks ((ofGraph g').run cap') := by
  have hr := replacesAtVisits_of_assignsNoReference (d := ofGraph g) hf
  have hr' := replacesAtVisits_of_assignsNoReference (d := ofGraph g') (assignsNoReference_of_reorders h hf)
  refine OrdSet.ext fun _ => ⟨?_, ?_⟩
  · exact mem_leaks_of_reorders h hu hc hc' (hr _ _) (hr' _ _)
  · exact mem_leaks_of_reorders h.symm (Graph.labelsUnique_moved h hu) hc' hc (hr' _ _) (hr _ _)

end

/-- A pointer gets the address of an array and loses it through a reference; then comes a loop, and the pointer is returned. -/
def rebound : Graph where
  function :=
    let array : CType := .array (.char .char) (some 8)
    let pointer : CType := .pointer (.char .char)
    let reference : CType := .reference pointer
    let y : Expr := .var ⟨array, .zero⟩ 0
    let p : Expr := .var ⟨pointer, .zero⟩ 1
    let r : Expr := .var ⟨reference, .zero⟩ 2
    { (default : Function) with
      returnType := pointer
      vars :=
        [⟨0, "y", array, .automatic, .localVar, false, .zero⟩, ⟨1, "p", pointer, .automatic, .localVar, false, .zero⟩,
         ⟨2, "r", reference, .automatic, .localVar, false, .zero⟩]
      blocks :=
        [⟨0, [⟨.declare 2 (some p), .zero⟩], [1]⟩,
         ⟨1, [⟨.assign p y, .zero⟩, ⟨.assign r (.nullptr ⟨.nullptr, .zero⟩), .zero⟩], [2]⟩,
         ⟨2, [], [2, 3]⟩,
         ⟨3, [⟨.jump ⟨.return, none, none, some p⟩, .zero⟩], []⟩] }
  faultless := rfl

/-- The same with the loop at the end. -/
def reboundLoopLast : Graph where
  function :=
    { rebound.function with
      blocks := rebound.function.blocks.take 2 ++ (rebound.function.blocks.drop 3 ++ (rebound.function.blocks.drop 2).take 1) }
  faultless := rfl

/-- The same with the entry at the end. -/
def reboundEntryLast : Graph where
  function := { rebound.function with blocks := rebound.function.blocks.drop 1 ++ rebound.function.blocks.take 1 }
  faultless := rfl

/-- The loop may stand at the end. -/
theorem leaks_reboundLoopLast :
    rebound.Reorders reboundLoopLast ∧ rebound.LabelsUnique ∧
      ((ofGraph rebound).run 10).converged = true ∧ ((ofGraph reboundLoopLast).run 10).converged = true ∧
      (ofGraph rebound).ReplacesAtVisits ((ofGraph rebound).run 10).iterations
        (stateIn rebound reboundLoopLast ((ofGraph reboundLoopLast).run 10)) ∧
      (ofGraph reboundLoopLast).ReplacesAtVisits ((ofGraph reboundLoopLast).run 10).iterations
        (stateIn reboundLoopLast rebound ((ofGraph rebound).run 10)) ∧
      (ofGraph rebound).leaks ((ofGraph rebound).run 10) =
        (ofGraph reboundLoopLast).leaks ((ofGraph reboundLoopLast).run 10) := by
  have h : rebound.Reorders reboundLoopLast := ⟨rfl, ((List.Perm.swap _ _ []).cons _).cons _⟩
  have hu : rebound.LabelsUnique := by decide +kernel
  have hc : ((ofGraph rebound).run 10).converged = true := by decide +kernel
  have hc' : ((ofGraph reboundLoopLast).run 10).converged = true := by decide +kernel
  have hr : (ofGraph rebound).ReplacesAtVisits ((ofGraph rebound).run 10).iterations
      (stateIn rebound reboundLoopLast ((ofGraph reboundLoopLast).run 10)) := by decide +kernel
  have hr' : (ofGraph reboundLoopLast).ReplacesAtVisits ((ofGraph reboundLoopLast).run 10).iterations
      (stateIn reboundLoopLast rebound ((ofGraph rebound).run 10)) := by decide +kernel
  exact ⟨h, hu, hc, hc', hr, hr', leaks_eq_of_reorders h hu hc hc' hr hr'⟩

/-- With the entry at the end the loop is visited before the reference is bound, and it keeps for ever what it got then: a leak
is found that is none with the entry in front. -/
theorem leaks_reboundEntryLast_ne :
    rebound.Reorders reboundEntryLast ∧ rebound.LabelsUnique ∧
      ((ofGraph rebound).run 10).converged = true ∧ ((ofGraph reboundEntryLast).run 10).converged = true ∧
      ((ofGraph rebound).leaks ((ofGraph rebound).run 10)).toList = [] ∧
      ((ofGraph reboundEntryLast).leaks ((ofGraph reboundEntryLast).run 10)).toList = [⟨0, some 1, .returned .zero false⟩] ∧
      (ofGraph rebound).leaks ((ofGraph rebound).run 10) ≠
        (ofGraph reboundEntryLast).leaks ((ofGraph reboundEntryLast).run 10) := by
  have hblocks : (rebound.function.blocks.take 1 ++ rebound.function.blocks.drop 1).Perm
      (rebound.function.blocks.drop 1 ++ rebound.function.blocks.take 1) := List.perm_append_comm
  have hnone : ((ofGraph rebound).leaks ((ofGraph rebound).run 10)).toList = [] := by decide +kernel
  have hleak : ((ofGraph reboundEntryLast).leaks ((ofGraph reboundEntryLast).run 10)).toList =
      [⟨0, some 1, .returned .zero false⟩] := by decide +kernel
  refine ⟨⟨rfl, hblocks⟩, by decide +kernel, by decide +kernel, by decide +kernel, hnone, hleak, fun heq => ?_⟩
  rw [heq, hleak] at hnone
  cases hnone

end Dataflow

end FlowLint.Escape
