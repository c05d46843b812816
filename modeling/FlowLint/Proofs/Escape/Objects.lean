import FlowLint.Proofs.Escape.Sources
import FlowLint.Proofs.Escape.Store
import FlowLint.Proofs.Flow.Faults

/-!
# Which variables are named

All states of a run, converged or not, have each property that the initial state and the empty one have and that joins and live
statements keep (`Kept.stateAt?`). One such property is that a state names stack objects alone: local variables of automatic storage
that are no references. An address is taken of no other variable, so that no other is named in a state or a leak, and what a leak
passes through is another variable of the function (`names_stackObjects`).
-/

namespace FlowLint.Escape

open FlowLint.Flow FlowLint.Escape.Frame

/-! ## Properties of all states of a run -/

namespace Dataflow

variable {d : Dataflow} {P : State → Prop} {p : Progress} {b : Nat} {s : State}

/-- A property that states keep: the initial state and the empty one have it, and joins and live statements leave it. -/
structure Kept (d : Dataflow) (P : State → Prop) : Prop where
  initial : P (initial d.graph.function)
  empty : P .empty
  join : ∀ s t, P s → P t → P (s.join t)
  transfer : ∀ q x s, d.liveAt? q = some x → P s → P (transfer d.graph.function s x)

/-- All states that are known, along arcs and at the starts of blocks, have a property. -/
structure HoldsIn (P : State → Prop) (p : Progress) : Prop where
  along : ∀ a s, along? p a = some s → P s
  ins : ∀ (b : Nat) s, (p.ins[b]?).join = some s → P s

theorem Kept.flow (h : d.Kept P) (hs : P s) (i : Nat) : P (d.flow b i s) :=
  flow_induct hs (fun j x hx hj => h.transfer ⟨b, j⟩ x _ hx hj) i

/-- A block starts from a join of what is known. -/
theorem Kept.inputOf (h : d.Kept P) (hp : HoldsIn P p) (b : Nat) : P (d.inputOf p b) := by
  have hfold : ∀ (l : List State) (s : State), P s → (∀ t ∈ l, P t) → P (l.foldl State.join s) := by
    intro l
    induction l with
    | nil => intro s hs _; exact hs
    | cons t l ih =>
      intro s hs hl
      rw [List.forall_mem_cons] at hl
      exact ih _ (h.join s t hs hl.1) hl.2
  rw [inputOf_eq]
  refine hfold _ _ ?_ fun t ht => ?_
  · unfold seed
    split
    · exact h.initial
    · exact h.empty
  · obtain ⟨a, -, ha⟩ := List.mem_filterMap.1 ht
    exact hp.along a t ha

/-- A visit adds states that come from what is known. -/
theorem Kept.visit (h : d.Kept P) (hf : d.Fits p) (hb : b < d.graph.size) (hp : HoldsIn P p) : HoldsIn P (d.visit p b) := by
  have hinput := h.inputOf hp b
  constructor
  · intro a s hs
    rw [along?_visit (hf.outs_length ▸ hb)] at hs
    split at hs
    · rw [← Option.some.inj hs]
      exact h.flow hinput _
    · exact hp.along a s hs
  · intro c s hs
    rw [visit_ins (hf.ins_length ▸ hb)] at hs
    split at hs
    · rw [← Option.some.inj hs]
      exact hinput
    · exact hp.ins c s hs

theorem Kept.visits (h : d.Kept P) {l : List Nat} (hl : ∀ b ∈ l, b < d.graph.size) (hf : d.Fits p) (hp : HoldsIn P p) :
    HoldsIn P (l.foldl d.visit p) := by
  induction l generalizing p with
  | nil => exact hp
  | cons b l ih =>
    rw [List.forall_mem_cons] at hl
    exact ih hl.2 (hf.visit b) (h.visit hf hl.1 hp)

/-- After each sweep all states that are known have the property. -/
theorem Kept.after (h : d.Kept P) (hd : d.Covers) (n : Nat) : HoldsIn P (d.after n) := by
  induction n with
  | zero =>
    constructor
    · intro a s hs
      rw [Dataflow.after, along?_start] at hs
      cases hs
    · intro b s hs
      simp only [Dataflow.after, start, List.getElem?_replicate] at hs
      split at hs <;> cases hs
  | succ n ih =>
    rw [after_succ, sweep]
    refine h.visits hd.order_lt (d.fits_after n).unchanged ⟨fun a s hs => ?_, ih.ins⟩
    rw [along?_unchanged] at hs
    exact ih.along a s hs

/-- The states of a run have the property, whether it has converged or not. -/
theorem Kept.stateAt? (h : d.Kept P) (hd : d.Covers) {cap : Nat} (hs : (d.run cap).stateAt? b = some s) : P s := by
  unfold Outcome.stateAt? at hs
  rw [run_ins] at hs
  exact (h.after hd _).ins b s hs

/-- What a run lets out is let out in a state with the property. -/
theorem Kept.exists_of_mem_leaks (h : d.Kept P) (hd : d.Covers) {cap : Nat} {l : Leak} (hl : l ∈ d.leaks (d.run cap)) :
    ∃ s x, x ∈ d.graph.function.statements ∧ P s ∧ l ∈ leaksOf ⟨d.graph.function, s⟩ x := by
  obtain ⟨q, s, x, hs, hx, hl⟩ := mem_leaks_iff_letsOut.1 hl
  refine ⟨_, x, ?_, h.flow (h.stateAt? hd hs) q.index, hl⟩
  exact Graph.mem_function_statements (Graph.mem_statements (liveAt?_eq_some_iff.1 hx).1)

end Dataflow

/-! ## Stack objects -/

/-- A number is that of a stack object: a local variable of automatic storage that is no reference. -/
def IsStackObject (f : Function) (v : VarId) : Prop :=
  ∃ x, f.variableOf? v = some x ∧ x.kind = .localVar ∧ x.storage = .automatic ∧ x.type.isReference = false

/-- A set of origins names stack objects alone. -/
def Origins.Proper (f : Function) (A : Origins) : Prop := ∀ v, .stack v ∈ A → IsStackObject f v

/-- A state names stack objects alone. -/
def State.Proper (f : Function) (s : State) : Prop := ∀ v, Origins.Proper f (s.atOrEmpty v)

variable {f : Function} {s t : State} {A B : Origins} {v : VarId}

/-- The address of a stack object is the object. -/
theorem Frame.varAddress_of_isStackObject {fr : Frame} (hv : IsStackObject fr.function v) :
    fr.varAddress v = .singleton (.stack v) := by
  obtain ⟨x, hx, hkind, hstorage, href⟩ := hv
  have hlocal : x.isStackLocal = true := by simp [Variable.isStackLocal, hkind, hstorage]
  unfold varAddress
  rw [hx]
  dsimp only
  rw [href, hlocal]
  rfl

theorem Frame.isReferenceIn_of_isStackObject (hv : IsStackObject f v) : isReferenceIn f v = false := by
  obtain ⟨x, hx, -, -, href⟩ := hv
  unfold isReferenceIn isReference
  dsimp only
  rw [hx]
  exact href

theorem Origins.proper_singleton {o : Origin} (h : ∀ v, o ≠ .stack v) : Origins.Proper f (OrdSet.singleton o) := by
  intro v hv
  exact absurd (List.mem_singleton.1 hv).symm (h v)

theorem Origins.proper_unknown : Origins.Proper f (OrdSet.singleton .unknown) := Origins.proper_singleton nofun

namespace State

theorem Proper.tracked (h : s.Proper f) (v : VarId) : Origins.Proper f ((Frame.mk f s).tracked v) := by
  intro x hx
  exact h v x (mem_tracked_stack.1 hx)

/-- The address of a variable is that of a stack object, what a reference is bound to, or no stack object at all. -/
theorem Proper.varAddress (h : s.Proper f) (v : VarId) : Origins.Proper f (Frame.varAddress ⟨f, s⟩ v) := by
  unfold Frame.varAddress
  dsimp only
  cases hx : f.variableOf? v with
  | none => exact Origins.proper_singleton nofun
  | some x =>
    dsimp only
    split
    · exact h.tracked v
    · rename_i href
      split
      · rename_i hlocal
        intro w hw
        obtain rfl : w = v := Origin.stack.inj (List.mem_singleton.1 hw)
        unfold Variable.isStackLocal at hlocal
        rw [decide_eq_true_eq] at hlocal
        exact ⟨x, hx, hlocal.1, hlocal.2, Bool.eq_false_iff.2 href⟩
      · exact Origins.proper_singleton nofun

theorem Proper.boundValue (h : s.Proper f) (v : VarId) : Origins.Proper f (Frame.boundValue ⟨f, s⟩ v) := by
  intro x hx
  rcases mem_boundValue.1 hx with ⟨w, -, hx⟩ | ⟨hx, -⟩
  · exact h.tracked w x hx
  · cases hx

theorem Proper.varValue (h : s.Proper f) (v : VarId) : Origins.Proper f (Frame.varValue ⟨f, s⟩ v) := by
  unfold Frame.varValue
  split
  · exact Origins.proper_singleton nofun
  · split
    · exact h.varAddress v
    · split
      · exact h.varAddress v
      · split
        · exact h.boundValue v
        · exact Origins.proper_singleton nofun
    · exact h.tracked v

theorem Proper.given (h : s.Proper f) (x : Source) : Origins.Proper f (Frame.given ⟨f, s⟩ x) := by
  cases x with
  | nowhere | unknown => exact Origins.proper_singleton nofun
  | whole v => exact h.varValue v
  | part v => exact h.tracked v
  | object v => exact h.varAddress v

theorem Proper.value (h : s.Proper f) (e : Expr) : Origins.Proper f (Frame.value ⟨f, s⟩ e) := by
  intro v hv
  obtain ⟨x, -, hx⟩ := mem_value_iff.1 hv
  exact h.given x v hx

theorem Proper.address (h : s.Proper f) (e : Expr) : Origins.Proper f (Frame.address ⟨f, s⟩ e) := by
  intro v hv
  obtain ⟨x, -, hx⟩ := mem_address_iff.1 hv
  exact h.given x v hx

theorem Proper.newOrigins (h : s.Proper f) (x : Statement) : Origins.Proper f (Frame.newOrigins ⟨f, s⟩ x) := by
  intro v hv
  obtain ⟨y, -, hy⟩ := mem_newOrigins_iff.1 hv
  exact h.given y v hy

theorem proper_empty : Proper f .empty := fun _ _ hv => absurd hv List.not_mem_nil

theorem Proper.assign (h : s.Proper f) (hA : Origins.Proper f A) (roots : List (VarId × Bool)) : (s.assign roots A).Proper f := by
  intro v x hx
  rcases mem_atOrEmpty_assign.1 hx with ⟨-, hx⟩ | ⟨-, hx⟩
  · exact hA x hx
  · exact h v x hx

/-- A join names what its parts name. -/
theorem Proper.join (hs : s.Proper f) (ht : t.Proper f) : (s.join t).Proper f := by
  intro v x hx
  rcases mem_atOrEmpty_join.1 hx with hx | hx
  · exact hs v x hx
  · exact ht v x hx

/-- A statement names what is named in front of it, and objects whose address it takes. -/
theorem Proper.transfer (h : s.Proper f) (x : Statement) : (Frame.transfer f s x).Proper f := by
  rw [transfer_eq]
  exact (h.assign Origins.proper_unknown _).assign (h.newOrigins x) _

theorem initial_proper (f : Function) : (Frame.initial f).Proper f := by
  rw [initial_eq]
  exact proper_empty.assign Origins.proper_unknown _

end State

/-! ## Leaks -/

/-- What a statement lets out is an origin of the value or the address of one of its expressions, and passes through the first
other variable of that expression. -/
theorem Frame.exists_of_mem_leaksOf {fr : Frame} {x : Statement} {l : Leak} (hl : l ∈ leaksOf fr x) :
    ∃ e ∈ x.exprs, l.via = firstOther e l.object ∧ (.stack l.object ∈ fr.value e ∨ .stack l.object ∈ fr.address e) := by
  unfold leaksOf at hl
  unfold Statement.exprs
  dsimp only at hl
  split at hl
  · rename_i value hact
    refine ⟨value, by rw [hact]; exact List.mem_singleton_self value, ?_⟩
    split at hl
    · obtain ⟨v, hv, rfl⟩ := List.mem_map.1 hl
      exact ⟨rfl, .inr (Origins.mem_locals.1 hv)⟩
    · obtain ⟨v, hv, rfl⟩ := List.mem_map.1 hl
      exact ⟨rfl, .inl (Origins.mem_locals.1 hv)⟩
    · cases hl
  · rename_i target value hact
    refine ⟨value, by rw [hact]; exact List.mem_cons_of_mem _ (List.mem_singleton_self value), ?_⟩
    split at hl
    · obtain ⟨v, hv, rfl⟩ := List.mem_map.1 hl
      exact ⟨rfl, .inl (Origins.mem_locals.1 hv)⟩
    · cases hl
  · cases hl

/-- What an address passes through is another variable that the expression mentions. -/
theorem Frame.occursIn_of_firstOther {e : Expr} {v w : VarId} (h : firstOther e v = some w) :
    w ≠ v ∧ ∃ n, (Expr.var n w).OccursIn e := by
  obtain ⟨x, hx, hw⟩ := List.exists_of_findSome?_eq_some h
  cases x with
  | var n y =>
    dsimp only at hw
    split at hw
    · cases hw
    · rename_i hne
      obtain rfl := Option.some.inj hw
      exact ⟨hne, n, Expr.mem_nodes_iff.1 hx⟩
  | _ => cases hw

namespace Dataflow

/-- Naming stack objects alone is kept by all states of a function. -/
theorem kept_proper (d : Dataflow) : d.Kept (State.Proper d.graph.function) where
  initial := State.initial_proper _
  empty := State.proper_empty
  join _ _ hs ht := hs.join ht
  transfer _ x _ _ hs := hs.transfer x

/-- A variable that is static, a parameter or a reference is no stack object. -/
theorem not_isStackObject_of_mem (g : Graph) {x : Variable} (hx : x ∈ g.function.vars)
    (h : x.isStackLocal = false ∨ x.type.isReference = true) : ¬IsStackObject g.function x.id := by
  rintro ⟨y, hy, hkind, hstorage, href⟩
  have hxy : y = x := by
    have hwell := wellFormed_of_fault? g.faultless
    refine List.inj_on_of_nodup_map hwell.vars_nodup (List.mem_of_find?_eq_some hy) hx ?_
    simpa using List.find?_some hy
  subst hxy
  rcases h with h | h
  · simp [Variable.isStackLocal, hkind, hstorage] at h
  · rw [href] at h
    cases h

/-- In every run, converged or not, the states and the leaks name stack objects alone, and a leak passes through another variable of
the function, if it passes through one. Variables that are static, parameters or references are named in none of them. -/
theorem names_stackObjects (g : Graph) (cap : Nat) :
    (∀ b s, ((ofGraph g).run cap).stateAt? b = some s → ∀ v x, .stack x ∈ s.atOrEmpty v → IsStackObject g.function x) ∧
    (∀ l ∈ (ofGraph g).leaks ((ofGraph g).run cap),
      IsStackObject g.function l.object ∧ ∀ w ∈ l.via, w ≠ l.object ∧ IsVariable g.function w) ∧
    ∀ x ∈ g.function.vars, x.isStackLocal = false ∨ x.type.isReference = true →
      (∀ b s, ((ofGraph g).run cap).stateAt? b = some s → ∀ v, .stack x.id ∉ s.atOrEmpty v) ∧
      ∀ l ∈ (ofGraph g).leaks ((ofGraph g).run cap), l.object ≠ x.id := by
  have hd := ofGraph_covers g
  have hkept := kept_proper (ofGraph g)
  have hwell := wellFormed_of_fault? g.faultless
  have hstates : ∀ b s, ((ofGraph g).run cap).stateAt? b = some s →
      ∀ v x, .stack x ∈ s.atOrEmpty v → IsStackObject g.function x := by
    intro b s hs v x hx
    exact hkept.stateAt? hd hs v x hx
  have hleaks : ∀ l ∈ (ofGraph g).leaks ((ofGraph g).run cap),
      IsStackObject g.function l.object ∧ ∀ w ∈ l.via, w ≠ l.object ∧ IsVariable g.function w := by
    intro l hl
    obtain ⟨s, x, hx, hproper, hl⟩ := hkept.exists_of_mem_leaks hd hl
    obtain ⟨e, he, hvia, horigin⟩ := exists_of_mem_leaksOf hl
    refine ⟨?_, fun w hw => ?_⟩
    · rcases horigin with h | h
      · exact hproper.value e _ h
      · exact hproper.address e _ h
    · rw [hvia] at hw
      obtain ⟨hne, n, hn⟩ := occursIn_of_firstOther hw
      exact ⟨hne, hwell.mentioned x hx e he n w hn⟩
  refine ⟨hstates, hleaks, fun x hx h => ⟨fun b s hs v hv => ?_, fun l hl heq => ?_⟩⟩
  · exact not_isStackObject_of_mem g hx h (hstates b s hs v x.id hv)
  · exact not_isStackObject_of_mem g hx h (heq ▸ (hleaks l hl).1)

end Dataflow

end FlowLint.Escape
