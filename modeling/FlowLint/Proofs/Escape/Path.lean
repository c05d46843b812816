import FlowLint.Proofs.Escape.FixedPoint
import FlowLint.Proofs.Escape.Replacement

/-!
# Local variables along paths

A path is a way of blocks from the entry along open arcs, and the state along it passes the live statements of each block up to
where the path leaves it. A converged analysis has all local variables that a path carries to a block, and all leaks at its
returns, if no assignment goes to a reference (`leaks_of_path`): a write through a reference may replace what one path still has.
-/

namespace FlowLint.Escape

open FlowLint.Flow FlowLint.Escape.Frame

namespace Dataflow

variable {d : Dataflow} {b : Nat} {s t : State}

/-! ## Paths -/

/-- The arcs of a way from the entry, and the block it leads to: each arc leaves the block before and is open. -/
inductive Path (d : Dataflow) : List Arc → Nat → Prop where
  | nil : Path d [] d.graph.entry
  | snoc {as : List Arc} {b : Nat} {a : Arc} :
      Path d as b → a ∈ d.graph.arcsOf b → d.isOpen a = true → Path d (as ++ [a]) a.target

/-- The state along a path. -/
def pathState (d : Dataflow) (as : List Arc) : State :=
  as.foldl (fun s a => d.flowAlong a s) (initial d.graph.function)

/-- A path leads to a block that is visited. -/
theorem Path.mem_order (hd : d.Covers) {as : List Arc} (h : Path d as b) : b ∈ d.order := by
  induction h with
  | nil => exact hd.entry_mem
  | @snoc as b a _ ha _ ih =>
    have hs : a.source = b := (Graph.mem_arcsOf.1 ha).1
    exact hd.target_mem a (hs.symm ▸ ha) (hs.symm ▸ ih)

/-- No assignment of a function goes to a reference or a part of one. -/
def AssignsNoReference (f : Function) : Prop :=
  ∀ x ∈ f.statements, ∀ v ∈ assignedVar? x, isReferenceIn f v = false

instance (f : Function) : Decidable (AssignsNoReference f) :=
  decidable_of_iff ((f.statements.all fun x => (assignedVar? x).all fun v => !isReferenceIn f v) = true) <| by
    simp only [AssignsNoReference, List.all_eq_true, Option.all_eq_true, Bool.not_eq_true', Option.mem_def]

/-- Then a live statement replaces the same in all states. -/
theorem AssignsNoReference.replacesIn (hf : AssignsNoReference d.graph.function) {q : Point} {x : Statement}
    (hx : d.liveAt? q = some x) (s t : State) : ReplacesIn d.graph.function x t s :=
  .of_no_reference (hf x (Graph.mem_function_statements (Graph.mem_statements (liveAt?_eq_some_iff.1 hx).1)))

/-- Passing live statements keeps local variables, if they replace all that they replace from the state that has more. -/
theorem flow_localsIn_of_replaces (h : s.LocalsIn t)
    (hr : ∀ i x, d.liveAt? ⟨b, i⟩ = some x → ReplacesIn d.graph.function x (d.flow b i t) (d.flow b i s)) (i : Nat) :
    (d.flow b i s).LocalsIn (d.flow b i t) := by
  induction i with
  | zero => exact h
  | succ i ih =>
    cases hx : d.liveAt? ⟨b, i⟩ with
    | none => rwa [flow_succ_of_dead hx, flow_succ_of_dead hx]
    | some x =>
      rw [flow_succ_of_live hx, flow_succ_of_live hx]
      exact transfer_localsIn_of_replaces ih (hr i x hx)

theorem flow_localsIn (hf : AssignsNoReference d.graph.function) (h : s.LocalsIn t) (i : Nat) :
    (d.flow b i s).LocalsIn (d.flow b i t) :=
  flow_localsIn_of_replaces h (fun _ _ hx => hf.replacesIn hx _ _) i

/-- The state at the start of a block has the local variables of all paths to it. -/
theorem Path.localsIn (hd : d.Covers) (hf : AssignsNoReference d.graph.function) {cap : Nat}
    (hc : (d.run cap).converged = true) {as : List Arc} (h : Path d as b) :
    ∃ s, (d.run cap).stateAt? b = some s ∧ (d.pathState as).LocalsIn s := by
  induction h with
  | nil =>
    have hentry := (stateAt?_of_converged hd hc).1 _ hd.entry_mem
    refine ⟨_, hentry, .of_le (State.le_trans (State.le_of_eq ?_) (State.le_foldl_join _ _))⟩
    rw [seed, if_pos rfl]
    rfl
  | @snoc as b a hp ha ho ih =>
    obtain ⟨s, hs, hin⟩ := ih
    obtain rfl : a.source = b := (Graph.mem_arcsOf.1 ha).1
    obtain ⟨s', hs', hle⟩ := flowAlong_le_of_converged hd hc ha ho hs
    have hstep : d.pathState (as ++ [a]) = d.flowAlong a (d.pathState as) := by
      simp [pathState]
    rw [hstep]
    exact ⟨s', hs', (flow_localsIn hf hin _).trans (.of_le hle)⟩

/-! ## Leaks -/

/-- What the live statements of a block let out, from a state at its start. -/
def leaksFrom (d : Dataflow) (b : Nat) (s : State) : List Leak :=
  ((d.liveStatements b).foldl d.replayStep ⟨s, []⟩).leaks

/-- What a block lets out is let out by a live statement in the state in front of it. -/
theorem mem_leaksFrom {l : Leak} :
    l ∈ d.leaksFrom b s ↔ ∃ i x, d.liveAt? ⟨b, i⟩ = some x ∧ l ∈ leaksOf ⟨d.graph.function, d.flow b i s⟩ x := by
  -- up to each index, the replay is in the state there and has the leaks in front of it
  have hreplay : ∀ i, ((d.liveBefore b i).foldl d.replayStep ⟨s, []⟩).state = d.flow b i s ∧
      (l ∈ ((d.liveBefore b i).foldl d.replayStep ⟨s, []⟩).leaks ↔
        ∃ j < i, ∃ x, d.liveAt? ⟨b, j⟩ = some x ∧ l ∈ leaksOf ⟨d.graph.function, d.flow b j s⟩ x) := by
    intro i
    induction i with
    | zero => exact ⟨rfl, fun h => absurd h List.not_mem_nil, fun ⟨j, hj, _⟩ => absurd hj (Nat.not_lt_zero j)⟩
    | succ i ih =>
      rw [liveBefore_succ, Nat.exists_lt_succ_right, ← ih.2]
      cases hx : d.liveAt? ⟨b, i⟩ with
      | none =>
        rw [flow_succ_of_dead hx]
        simpa using ih.1
      | some x =>
        rw [flow_succ_of_live hx]
        simp only [Option.map_some, Option.toList_some, List.foldl_append, List.foldl_cons, List.foldl_nil, replayStep, ih.1,
          List.mem_append]
        simp
  rw [leaksFrom, ← liveBefore_length, (hreplay _).2]
  constructor
  · rintro ⟨i, -, h⟩
    exact ⟨i, h⟩
  · rintro ⟨i, x, hx, hl⟩
    exact ⟨i, Graph.index_lt (liveAt?_eq_some_iff.1 hx).1, x, hx, hl⟩

/-- The leaks are those of the blocks, from the states at their starts. -/
theorem mem_leaks {o : Outcome} {l : Leak} :
    l ∈ d.leaks o ↔ ∃ b < d.graph.size, ∃ s, o.stateAt? b = some s ∧ l ∈ d.leaksFrom b s := by
  unfold leaks
  rw [OrdSet.mem_ofList, List.mem_flatMap]
  refine exists_congr fun b => ?_
  rw [List.mem_range]
  refine and_congr_right fun _ => ?_
  unfold replay leaksFrom
  cases o.stateAt? b with
  | none => simp
  | some s => simp

/-- The local variables that a `return` lets out are kept. -/
theorem mem_leaksOf_return {f : Function} (h : s.LocalsIn t) {x : Statement} {l : Leak} (hl : l ∈ leaksOf ⟨f, s⟩ x)
    (hr : l.sink.isStore = false) : l ∈ leaksOf ⟨f, t⟩ x :=
  mem_leaksOf_of_localsIn h hl fun hs => absurd (hr.symm.trans hs) Bool.false_ne_true

/-- A converged analysis has the local variables that a path carries to a block, and what the returns of the block let out on the
path. -/
theorem leaks_of_path (g : Graph) (hf : AssignsNoReference g.function) {cap : Nat}
    (hc : ((ofGraph g).run cap).converged = true) {as : List Arc} {b : Nat} (hp : Path (ofGraph g) as b) :
    ∃ s, ((ofGraph g).run cap).stateAt? b = some s ∧ ((ofGraph g).pathState as).LocalsIn s ∧
      ∀ l ∈ (ofGraph g).leaksFrom b ((ofGraph g).pathState as), l.sink.isStore = false →
        l ∈ (ofGraph g).leaks ((ofGraph g).run cap) := by
  have hd := ofGraph_covers g
  obtain ⟨s, hs, hin⟩ := hp.localsIn hd hf hc
  refine ⟨s, hs, hin, fun l hl hr => ?_⟩
  obtain ⟨i, x, hx, hl⟩ := mem_leaksFrom.1 hl
  have hl' := mem_leaksOf_return (flow_localsIn hf hin i) hl hr
  exact mem_leaks.2 ⟨b, hd.order_lt b (hp.mem_order hd), s, hs, mem_leaksFrom.2 ⟨i, x, hx, hl'⟩⟩

/-- A loop in which a pointer gets the address of an array, and that returns the pointer. -/
def loopOfPointer : Graph where
  function :=
    let array : CType := .array (.char .char) (some 8)
    let pointer : CType := .pointer (.char .char)
    let x : Expr := .var ⟨array, .zero⟩ 0
    let p : Expr := .var ⟨pointer, .zero⟩ 1
    { (default : Function) with
      returnType := pointer
      vars := [⟨0, "x", array, .automatic, .localVar, false, .zero⟩, ⟨1, "p", pointer, .automatic, .localVar, false, .zero⟩]
      blocks :=
        [⟨0, [⟨.assign p (.nullptr ⟨.nullptr, .zero⟩), .zero⟩], [1]⟩,
         ⟨1, [], [2, 3]⟩,
         ⟨2, [⟨.assign p x, .zero⟩, ⟨.jump ⟨.continue, some 1, none, none⟩, .zero⟩], []⟩,
         ⟨3, [⟨.jump ⟨.return, none, none, some p⟩, .zero⟩], []⟩] }
  faultless := rfl

/-- The path through the loop carries the address of the array to the `return`, and the analysis has it there. -/
theorem leak_loopOfPointer :
    AssignsNoReference loopOfPointer.function ∧ ((ofGraph loopOfPointer).run 10).converged = true ∧
      Path (ofGraph loopOfPointer) [⟨0, none, 1⟩, ⟨1, none, 2⟩, ⟨2, some 1, 1⟩, ⟨1, none, 3⟩] 3 ∧
      ∃ s, ((ofGraph loopOfPointer).run 10).stateAt? 3 = some s ∧ .stack 0 ∈ s.atOrEmpty 1 ∧
        ⟨0, some 1, .returned .zero false⟩ ∈ (ofGraph loopOfPointer).leaks ((ofGraph loopOfPointer).run 10) := by
  have hf : AssignsNoReference loopOfPointer.function := by decide +kernel
  have hc : ((ofGraph loopOfPointer).run 10).converged = true := by decide +kernel
  have hp : Path (ofGraph loopOfPointer) [⟨0, none, 1⟩, ⟨1, none, 2⟩, ⟨2, some 1, 1⟩, ⟨1, none, 3⟩] 3 := by
    have h1 : Path (ofGraph loopOfPointer) [⟨0, none, 1⟩] 1 := .snoc .nil (by decide +kernel) rfl
    have h2 : Path (ofGraph loopOfPointer) [⟨0, none, 1⟩, ⟨1, none, 2⟩] 2 := .snoc h1 (by decide +kernel) rfl
    have h3 : Path (ofGraph loopOfPointer) [⟨0, none, 1⟩, ⟨1, none, 2⟩, ⟨2, some 1, 1⟩] 1 :=
      .snoc h2 (by decide +kernel) (by decide +kernel)
    exact .snoc h3 (by decide +kernel) rfl
  obtain ⟨s, hs, hin, hleaks⟩ := leaks_of_path loopOfPointer hf hc hp
  refine ⟨hf, hc, hp, s, hs, hin 1 0 ?_, hleaks _ ?_ rfl⟩
  · change Origin.stack 0 ∈ (State.atOrEmpty _ 1).toList
    decide +kernel
  · decide +kernel

end Dataflow

end FlowLint.Escape
