import FlowLint.Snapshot.Statement

/-!
# Parts of expressions

An expression occurs in another one if it is that expression or occurs in one of its operands, at whatever depth. The nodes of an
expression are the expressions that occur in it (`mem_nodes_iff`), and those of a statement the ones that occur in its expressions
(`Statement.mem_nodes_iff`). The calls of a statement are those that it makes, at whatever depth (`Statement.mem_calls_iff`).
-/

namespace FlowLint

namespace Expr

/-- The expressions that an expression is made of: operands, the parts of an element or a member, the arguments of a call. -/
def operands : Expr → List Expr
  | .addressOf _ a | .deref _ a | .unary _ _ a | .cast _ a | .member _ a _ _ => [a]
  | .index _ a b | .binary _ _ a b => [a, b]
  | .conditional _ a b c => [a, b, c]
  | .call _ _ args _ => args
  | _ => []

/-- An expression is another one or occurs in an operand of it. -/
inductive OccursIn (x : Expr) : Expr → Prop where
  | self : OccursIn x x
  | operand {a e : Expr} : a ∈ e.operands → OccursIn x a → OccursIn x e

theorem sizeOf_lt_of_mem_operands {a e : Expr} (h : a ∈ e.operands) : sizeOf a < sizeOf e := by
  cases e with
  | call n callee args site =>
    have := List.sizeOf_lt_of_mem (show a ∈ args from h)
    simp only [call.sizeOf_spec]
    omega
  | _ => simp [operands] at h <;> grind

theorem nodesOfAll_eq (es : List Expr) : nodesOfAll es = es.flatMap nodes := by
  induction es with
  | nil => rfl
  | cons e es ih => rw [nodesOfAll, ih, List.flatMap_cons]

/-- The nodes of an expression are the expression and the nodes of its operands, one operand after the other. -/
theorem nodes_eq (e : Expr) : e.nodes = e :: e.operands.flatMap nodes := by
  cases e <;> simp [nodes, operands, nodesOfAll_eq]

/-- What is among the nodes of an expression occurs in it. -/
theorem occursIn_of_mem_nodes {x : Expr} (e : Expr) (h : x ∈ e.nodes) : x.OccursIn e := by
  rw [nodes_eq] at h
  rcases List.mem_cons.1 h with rfl | h
  · exact .self
  · obtain ⟨a, ha, hx⟩ := List.mem_flatMap.1 h
    have := sizeOf_lt_of_mem_operands ha
    exact .operand ha (occursIn_of_mem_nodes a hx)
termination_by sizeOf e

/-- The nodes of an expression are the expressions that occur in it. -/
theorem mem_nodes_iff {x e : Expr} : x ∈ e.nodes ↔ x.OccursIn e := by
  refine ⟨occursIn_of_mem_nodes e, fun h => ?_⟩
  induction h with
  | self =>
    rw [nodes_eq]
    exact List.mem_cons_self
  | operand ha _ ih =>
    rw [nodes_eq]
    exact List.mem_cons_of_mem _ (List.mem_flatMap.2 ⟨_, ha, ih⟩)

end Expr

/-- The nodes of a statement are the expressions that occur in its expressions. -/
theorem Statement.mem_nodes_iff {x : Expr} {s : Statement} : x ∈ s.nodes ↔ ∃ e ∈ s.exprs, x.OccursIn e := by
  unfold Statement.nodes
  rw [Expr.nodesOfAll_eq, List.mem_flatMap]
  exact exists_congr fun e => and_congr_right fun _ => Expr.mem_nodes_iff

theorem Expr.asCall_eq_some_iff {e : Expr} {site : CallSite} :
    e.asCall = some site ↔ ∃ note, e = .call note site.callee site.args site.span := by
  constructor
  · intro h
    unfold asCall at h
    split at h
    · cases h
      exact ⟨_, rfl⟩
    · cases h
  · rintro ⟨note, rfl⟩
    rfl

/-- A statement makes a call: it is the call, or the call occurs in one of its expressions. -/
def Statement.Makes (s : Statement) (site : CallSite) : Prop :=
  s.action = .call site ∨ ∃ e ∈ s.exprs, ∃ note, (Expr.call note site.callee site.args site.span).OccursIn e

/-- The calls of a statement are those that it makes. -/
theorem Statement.mem_calls_iff {s : Statement} {site : CallSite} : site ∈ s.calls ↔ s.Makes site := by
  unfold calls Makes
  rw [List.mem_append, List.mem_filterMap]
  refine or_congr ?_ ?_
  · cases s.action <;> simp [eq_comm]
  · constructor
    · rintro ⟨x, hx, hcall⟩
      obtain ⟨e, he, hoccurs⟩ := mem_nodes_iff.1 hx
      obtain ⟨note, rfl⟩ := Expr.asCall_eq_some_iff.1 hcall
      exact ⟨e, he, note, hoccurs⟩
    · rintro ⟨e, he, note, hoccurs⟩
      exact ⟨_, mem_nodes_iff.2 ⟨e, he, hoccurs⟩, Expr.asCall_eq_some_iff.2 ⟨note, rfl⟩⟩

end FlowLint
