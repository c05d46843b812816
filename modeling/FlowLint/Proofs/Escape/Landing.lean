import FlowLint.Proofs.Escape.FixedPoint
import FlowLint.Proofs.Escape.Replacement
import FlowLint.Proofs.Flow.Arrival

/-!
# Local variables behind a landing

A `goto` lands on a label in the middle of a block, but the analysis joins the state in front of it to the start of the block. The
local variables of that state are there, and from there they pass the live statements in front of the label, which control skips.
One is left at the label exactly if each of these statements that erases the origins of its variable is followed by one, maybe
itself, that gives the local variable back (`stack_mem_landing_iff`).
-/

namespace FlowLint.Escape

open FlowLint.Flow FlowLint.Escape.Frame

/-! ## What statements erase and give -/

namespace Frame

/-- A statement erases the origins of a variable: it replaces them, or changes the variable in a way that is not known. -/
def Erases (fr : Frame) (x : Statement) (v : VarId) : Prop := (v, true) ∈ changedRoots fr x ∨ v ∈ clobbered x

/-- A statement gives a variable the address of a local one. -/
def Gives (fr : Frame) (x : Statement) (v y : VarId) : Prop :=
  (∃ strong, (v, strong) ∈ changedRoots fr x) ∧ .stack y ∈ newOrigins fr x

/-- Behind a statement a variable has the local variables that the statement gives it, and those it had unless the statement
erases them. -/
theorem stack_mem_transfer {f : Function} {s : State} {x : Statement} {v y : VarId} :
    .stack y ∈ (transfer f s x).atOrEmpty v ↔ Gives ⟨f, s⟩ x v y ∨ (¬Erases ⟨f, s⟩ x v ∧ .stack y ∈ s.atOrEmpty v) := by
  rw [mem_atOrEmpty_transfer, Erases, not_or, and_assoc]
  simp only [reduceCtorEq, and_false, false_or]
  rfl

end Frame

namespace Dataflow

variable {d : Dataflow} {b : Nat} {s : State} {v y : VarId}

/-- The statement at an index of a block is live and erases the origins of a variable, from the state at the start of the
block. -/
def ErasesAt (d : Dataflow) (b : Nat) (s : State) (v : VarId) (i : Nat) : Prop :=
  ∃ x, d.liveAt? ⟨b, i⟩ = some x ∧ Erases ⟨d.graph.function, d.flow b i s⟩ x v

/-- The statement at an index of a block is live and gives a variable the address of a local one, from the state at the start of
the block. -/
def GivesAt (d : Dataflow) (b : Nat) (s : State) (v y : VarId) (i : Nat) : Prop :=
  ∃ x, d.liveAt? ⟨b, i⟩ = some x ∧ Gives ⟨d.graph.function, d.flow b i s⟩ x v y

/-- One more statement of a block is passed. -/
theorem stack_mem_flow_succ {i : Nat} :
    .stack y ∈ (d.flow b (i + 1) s).atOrEmpty v ↔
      d.GivesAt b s v y i ∨ (¬d.ErasesAt b s v i ∧ .stack y ∈ (d.flow b i s).atOrEmpty v) := by
  unfold GivesAt ErasesAt
  cases hx : d.liveAt? ⟨b, i⟩ with
  | none => simp [flow_succ_of_dead hx]
  | some x => simp [flow_succ_of_live hx, stack_mem_transfer]

/-- A local variable that a variable has at the start of a block is left in front of an index exactly if whatever erases it is
followed by what gives it back: by induction on the index, where the last statement that does either decides. -/
theorem stack_mem_flow_iff (h : .stack y ∈ s.atOrEmpty v) (i : Nat) :
    .stack y ∈ (d.flow b i s).atOrEmpty v ↔
      ∀ k < i, d.ErasesAt b s v k → ∃ j, k ≤ j ∧ j < i ∧ d.GivesAt b s v y j := by
  induction i with
  | zero => exact ⟨fun _ k hk => absurd hk (Nat.not_lt_zero k), fun _ => h⟩
  | succ i ih =>
    rw [stack_mem_flow_succ, ih]
    constructor
    · rintro (hgives | ⟨hkept, hbefore⟩) k hk herases
      · exact ⟨i, Nat.le_of_lt_succ hk, Nat.lt_succ_self i, hgives⟩
      · have hlt : k < i := by
          refine Nat.lt_of_le_of_ne (Nat.le_of_lt_succ hk) fun heq => hkept ?_
          exact heq ▸ herases
        obtain ⟨j, hkj, hj, hgives⟩ := hbefore k hlt herases
        exact ⟨j, hkj, Nat.lt_succ_of_lt hj, hgives⟩
    · intro hall
      by_cases hgives : d.GivesAt b s v y i
      · exact .inl hgives
      · -- what gives it back stands in front of the last statement
        have hbefore : ∀ k < i + 1, d.ErasesAt b s v k → ∃ j, k ≤ j ∧ j < i ∧ d.GivesAt b s v y j := by
          intro k hk herases
          obtain ⟨j, hkj, hj, hj'⟩ := hall k hk herases
          refine ⟨j, hkj, Nat.lt_of_le_of_ne (Nat.le_of_lt_succ hj) fun heq => hgives ?_, hj'⟩
          exact heq ▸ hj'
        refine .inr ⟨fun herases => ?_, fun k hk => hbefore k (Nat.lt_succ_of_lt hk)⟩
        obtain ⟨j, hij, hji, -⟩ := hbefore i (Nat.lt_succ_self i) herases
        exact absurd hij (Nat.not_le_of_lt hji)

/-! ## Landings -/

/-- In a converged analysis the local variables that a variable has in front of a live `goto` are at the start of the block where
it lands. They are left at the label exactly if each live statement in front of it that erases the origins of the variable is
followed by one there, maybe itself, that gives it the local variable. -/
theorem stack_mem_landing_iff (g : Graph) {cap : Nat} (hc : ((ofGraph g).run cap).converged = true) {p q : Point} {x : Statement}
    {t : Nat} (hx : (ofGraph g).liveAt? p = some x) (ht : g.destination? x = some t) (hl : g.LandsOn x t q) {s : State}
    (hs : ((ofGraph g).run cap).stateAt? p.block = some s) :
    ∃ s', ((ofGraph g).run cap).stateAt? q.block = some s' ∧
      ∀ v y, .stack y ∈ ((ofGraph g).flow p.block p.index s).atOrEmpty v →
        .stack y ∈ s'.atOrEmpty v ∧
        (.stack y ∈ ((ofGraph g).flow q.block q.index s').atOrEmpty v ↔
          ∀ k < q.index, (ofGraph g).ErasesAt q.block s' v k →
            ∃ j, k ≤ j ∧ j < q.index ∧ (ofGraph g).GivesAt q.block s' v y j) := by
  obtain ⟨hstatement, -⟩ := liveAt?_eq_some_iff.1 hx
  have harc : (⟨p.block, some p.index, t⟩ : Arc) ∈ g.arcsOf p.block := Graph.jump_mem_arcsOf hstatement ht
  have hopen : (ofGraph g).isOpen ⟨p.block, some p.index, t⟩ = true :=
    (isLiveJump_of_live hx).2 (Graph.asJump_of_destination? ht)
  obtain ⟨s', hs', hle⟩ := flowAlong_le_of_converged (ofGraph_covers g) hc harc hopen hs
  rw [hl.1]
  refine ⟨s', hs', fun v y hy => ?_⟩
  have hstart : .stack y ∈ s'.atOrEmpty v := State.atOrEmpty_mono hle hy
  exact ⟨hstart, stack_mem_flow_iff hstart q.index⟩

/-- A `goto` that lands behind an assignment to the pointer that it brings along, in a block that control may also enter from
above. -/
def skipOver (above : Bool) : Graph where
  function :=
    let array : CType := .array (.char .char) (some 8)
    let pointer : CType := .pointer (.char .char)
    let x : Expr := .var ⟨array, .zero⟩ 0
    let p : Expr := .var ⟨pointer, .zero⟩ 1
    { (default : Function) with
      returnType := pointer
      vars := [⟨0, "x", array, .automatic, .localVar, false, .zero⟩, ⟨1, "p", pointer, .automatic, .localVar, false, .zero⟩]
      blocks :=
        [⟨0, [], if above then [1, 2] else [2]⟩,
         ⟨1, [⟨.assign p (.nullptr ⟨pointer, .zero⟩), .zero⟩, ⟨.label "out" .user, .zero⟩,
           ⟨.jump ⟨.return, none, none, some p⟩, .zero⟩], []⟩,
         ⟨2, [⟨.assign p x, .zero⟩, ⟨.jump ⟨.goto, some 1, some "out", none⟩, .zero⟩], []⟩] }
  faultless := by cases above <;> rfl

/-- If control does not enter the block from above, the assignment is dead, and the address of the array is left at the label. -/
theorem stack_mem_skipOver :
    ((ofGraph (skipOver false)).run 10).converged = true ∧
      (ofGraph (skipOver false)).liveAt? ⟨2, 1⟩ = some ⟨.jump ⟨.goto, some 1, some "out", none⟩, .zero⟩ ∧
      (skipOver false).destination? ⟨.jump ⟨.goto, some 1, some "out", none⟩, .zero⟩ = some 1 ∧
      (skipOver false).LandsOn ⟨.jump ⟨.goto, some 1, some "out", none⟩, .zero⟩ 1 ⟨1, 1⟩ ∧
      ((ofGraph (skipOver false)).run 10).stateAt? 2 = some .empty ∧
      .stack 0 ∈ ((ofGraph (skipOver false)).flow 2 1 .empty).atOrEmpty 1 ∧
      ∃ s', ((ofGraph (skipOver false)).run 10).stateAt? 1 = some s' ∧
        .stack 0 ∈ ((ofGraph (skipOver false)).flow 1 1 s').atOrEmpty 1 := by
  have hc : ((ofGraph (skipOver false)).run 10).converged = true := by decide +kernel
  have hx : (ofGraph (skipOver false)).liveAt? ⟨2, 1⟩ = some ⟨.jump ⟨.goto, some 1, some "out", none⟩, .zero⟩ :=
    liveAt?_eq_some_iff.2 ⟨rfl, by decide +kernel⟩
  have hl : (skipOver false).LandsOn ⟨.jump ⟨.goto, some 1, some "out", none⟩, .zero⟩ 1 ⟨1, 1⟩ :=
    ⟨rfl, _, "out", rfl, rfl, rfl, rfl⟩
  have hs : ((ofGraph (skipOver false)).run 10).stateAt? 2 = some .empty := by decide +kernel
  have hy : .stack 0 ∈ ((ofGraph (skipOver false)).flow 2 1 .empty).atOrEmpty 1 := by
    change _ ∈ OrdSet.toList _
    decide +kernel
  have hdead : (ofGraph (skipOver false)).live.isLive ⟨1, 0⟩ = false := by decide +kernel
  obtain ⟨s', hs', hleft⟩ := stack_mem_landing_iff (skipOver false) hc hx rfl hl hs
  refine ⟨hc, hx, rfl, hl, hs, hy, s', hs', (hleft 1 0 hy).2.2 fun k hk ⟨x, hx, _⟩ => ?_⟩
  obtain rfl := Nat.lt_one_iff.1 hk
  rw [(liveAt?_eq_some_iff.1 hx).2] at hdead
  cases hdead

/-- If it does, the assignment is live and erases the address on the way to the label, and the leak is missed. -/
theorem stack_not_mem_skipOver :
    ((ofGraph (skipOver true)).run 10).converged = true ∧ (ofGraph (skipOver true)).live.isLive ⟨2, 1⟩ = true ∧
      (skipOver true).LandsOn ⟨.jump ⟨.goto, some 1, some "out", none⟩, .zero⟩ 1 ⟨1, 1⟩ ∧
      (((ofGraph (skipOver true)).run 10).stateAt? 2).map (fun s => ((ofGraph (skipOver true)).flow 2 1 s).atOrEmpty 1) =
        some (.singleton (.stack 0)) ∧
      (((ofGraph (skipOver true)).run 10).stateAt? 1).map (fun s => ((ofGraph (skipOver true)).flow 1 1 s).atOrEmpty 1) =
        some (.singleton .nowhere) ∧
      (ofGraph (skipOver true)).leaks ((ofGraph (skipOver true)).run 10) = .empty := by
  refine ⟨by decide +kernel, by decide +kernel, ⟨rfl, _, "out", rfl, rfl, rfl, rfl⟩, ?_, ?_, ?_⟩ <;> decide +kernel

end Dataflow

end FlowLint.Escape
