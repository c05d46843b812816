import FlowLint.Proofs.Escape.Path

/-!
# Stores through pointers

A store is a leak if its target lives on, and memory behind a pointer does so only if the pointer holds no local variable. Joins add
origins: they keep the local variables that are stored, but they may also give the pointer one, and then the store is a leak no
more. So what a store lets out on a path is found by a converged analysis exactly if the pointer still holds no local variable
there, or if another statement lets out the same (`store_of_path`); without a pointer it always is.
-/

namespace FlowLint.Escape

open FlowLint.Flow FlowLint.Escape.Frame

namespace Frame

variable {f : Function} {s t : State}

/-- The pointer that a store goes through, unless its target is a variable or a part of one. -/
def through? : Expr → Option Expr
  | .cast _ a => through? a
  | .deref _ a => some a
  | .member _ a _ arrow => if arrow then some a else through? a
  | .index _ a _ => if a.type.isArray then through? a else some a
  | _ => none

/-- A pointer of the caller or of static storage stays outside as long as it holds no local variable. -/
theorem pointsOutside_iff {e : Expr} (h : pointsOutside ⟨f, s⟩ e = true) :
    pointsOutside ⟨f, t⟩ e = true ↔ (value ⟨f, t⟩ e).locals = [] := by
  unfold pointsOutside at h ⊢
  rw [Bool.and_eq_true] at h ⊢
  rw [List.isEmpty_iff]
  exact and_iff_right h.1

/-- A target that lives on in one state lives on in another one exactly if the pointer it is reached through, if there is one, holds
no local variable there. -/
theorem outlives_iff : ∀ {e : Expr}, outlives ⟨f, s⟩ e = true →
    (outlives ⟨f, t⟩ e = true ↔ ∀ a ∈ through? e, (value ⟨f, t⟩ a).locals = [])
  | .cast _ a, h => outlives_iff (e := a) h
  | .global _ _, _ => iff_of_true rfl nofun
  | .var _ _, h => iff_of_true h nofun
  | .deref _ a, h => by simpa [outlives, through?] using pointsOutside_iff h
  | .member _ a _ true, h => by simpa [outlives, through?] using pointsOutside_iff h
  | .member _ a _ false, h => by simpa [outlives, through?] using outlives_iff (e := a) h
  | .index _ a _, h => by
    unfold outlives at h ⊢
    unfold through?
    by_cases ha : a.type.isArray = true
    · rw [if_pos ha] at h ⊢
      rw [if_pos ha]
      exact outlives_iff h
    · rw [if_neg ha] at h ⊢
      rw [if_neg ha]
      simpa using pointsOutside_iff h

/-- What a store lets out in one state, it lets out in another one exactly if the value still has the local variable there, and the
pointer that the store goes through still has none. -/
theorem mem_leaksOf_store_iff {x : Statement} {target e : Expr} (hx : x.action = .assign target e) {l : Leak}
    (hl : l ∈ leaksOf ⟨f, s⟩ x) :
    l ∈ leaksOf ⟨f, t⟩ x ↔ .stack l.object ∈ value ⟨f, t⟩ e ∧ ∀ a ∈ through? target, (value ⟨f, t⟩ a).locals = [] := by
  unfold leaksOf at hl ⊢
  rw [hx] at hl ⊢
  dsimp only at hl ⊢
  split at hl
  · rename_i ho
    obtain ⟨v, -, rfl⟩ := List.mem_map.1 hl
    rw [← outlives_iff ho, and_comm]
    split
    · rename_i ho'
      rw [and_iff_right ho', ← Origins.mem_locals, List.mem_map]
      exact ⟨fun ⟨w, hw, heq⟩ => (congrArg Leak.object heq) ▸ hw, fun hv => ⟨v, hv, rfl⟩⟩
    · rename_i ho'
      exact iff_of_false List.not_mem_nil fun h => ho' h.1
  · cases hl

/-- A store has the local variables of its value. -/
theorem stack_mem_of_mem_leaksOf {x : Statement} {target e : Expr} (hx : x.action = .assign target e) {l : Leak}
    (hl : l ∈ leaksOf ⟨f, s⟩ x) : .stack l.object ∈ value ⟨f, s⟩ e :=
  ((mem_leaksOf_store_iff hx hl).1 hl).1

end Frame

namespace Dataflow

variable {d : Dataflow}

/-- A live statement lets something out in the state that an analysis has in front of it. -/
def LetsOut (d : Dataflow) (o : Outcome) (p : Point) (l : Leak) : Prop :=
  ∃ s x, o.stateAt? p.block = some s ∧ d.liveAt? p = some x ∧ l ∈ leaksOf ⟨d.graph.function, d.flow p.block p.index s⟩ x

/-- The leaks of an analysis are what its live statements let out. -/
theorem mem_leaks_iff_letsOut {o : Outcome} {l : Leak} : l ∈ d.leaks o ↔ ∃ p, d.LetsOut o p l := by
  rw [mem_leaks]
  constructor
  · rintro ⟨b, -, s, hs, hl⟩
    obtain ⟨i, x, hx, hl⟩ := mem_leaksFrom.1 hl
    exact ⟨⟨b, i⟩, s, x, hs, hx, hl⟩
  · rintro ⟨⟨b, i⟩, s, x, hs, hx, hl⟩
    exact ⟨b, Graph.block_lt (liveAt?_eq_some_iff.1 hx).1, s, hs, mem_leaksFrom.2 ⟨i, x, hx, hl⟩⟩

/-- What a store lets out on a path, a converged analysis finds exactly if in its state in front of the store the value still has the
local variable and the pointer that the store goes through has none, or if another statement lets out the same. The value has it if
no assignment goes to a reference. -/
theorem store_of_path (g : Graph) {cap : Nat} (hc : ((ofGraph g).run cap).converged = true) {as : List Arc} {b i : Nat}
    (hp : Path (ofGraph g) as b) {x : Statement} {target e : Expr} (hx : (ofGraph g).liveAt? ⟨b, i⟩ = some x)
    (hact : x.action = .assign target e) {l : Leak}
    (hl : l ∈ leaksOf ⟨g.function, (ofGraph g).flow b i ((ofGraph g).pathState as)⟩ x) :
    ∃ s, ((ofGraph g).run cap).stateAt? b = some s ∧
      (l ∈ (ofGraph g).leaks ((ofGraph g).run cap) ↔
        (.stack l.object ∈ value ⟨g.function, (ofGraph g).flow b i s⟩ e ∧
          ∀ a ∈ through? target, (value ⟨g.function, (ofGraph g).flow b i s⟩ a).locals = []) ∨
        ∃ p, p ≠ ⟨b, i⟩ ∧ (ofGraph g).LetsOut ((ofGraph g).run cap) p l) ∧
      (AssignsNoReference g.function → .stack l.object ∈ value ⟨g.function, (ofGraph g).flow b i s⟩ e) := by
  have hd := ofGraph_covers g
  obtain ⟨s, hs⟩ : ∃ s, ((ofGraph g).run cap).stateAt? b = some s := ⟨_, (stateAt?_of_converged hd hc).1 b (hp.mem_order hd)⟩
  refine ⟨s, hs, ?_, fun hf => ?_⟩
  · rw [mem_leaks_iff_letsOut, ← mem_leaksOf_store_iff hact hl]
    constructor
    · rintro ⟨p, hletsOut⟩
      by_cases hpoint : p = ⟨b, i⟩
      · subst hpoint
        obtain ⟨s', x', hs', hx', hl'⟩ := hletsOut
        obtain rfl := Option.some.inj (hs.symm.trans hs')
        obtain rfl := Option.some.inj (hx.symm.trans hx')
        exact .inl hl'
      · exact .inr ⟨p, hpoint, hletsOut⟩
    · rintro (hl' | ⟨p, -, hletsOut⟩)
      · exact ⟨⟨b, i⟩, s, x, hs, hx, hl'⟩
      · exact ⟨p, hletsOut⟩
  · obtain ⟨s', hs', hin⟩ := hp.localsIn hd hf hc
    obtain rfl := Option.some.inj (hs.symm.trans hs')
    exact stack_mem_value (flow_localsIn hf hin i) e (stack_mem_of_mem_leaksOf hact hl)

/-- A function that stores the address of an array through a parameter, and that may redirect the parameter before, to a variable of
its own or to nothing. -/
def storeThrough (redirected : Bool) : Graph where
  function :=
    let array : CType := .array (.char .char) (some 8)
    let pointer : CType := .pointer (.char .char)
    let out : Expr := .var ⟨.pointer pointer, .zero⟩ 0
    { (default : Function) with
      vars :=
        [⟨0, "out", .pointer pointer, .automatic, .param, false, .zero⟩,
         ⟨1, "x", array, .automatic, .localVar, false, .zero⟩,
         ⟨2, "q", pointer, .automatic, .localVar, false, .zero⟩]
      blocks :=
        [⟨0, [⟨.other, .zero⟩], [1, 2]⟩,
         ⟨1, [⟨.assign out (if redirected then .addressOf ⟨.pointer pointer, .zero⟩ (.var ⟨pointer, .zero⟩ 2)
           else .nullptr ⟨.nullptr, .zero⟩), .zero⟩], [2]⟩,
         ⟨2, [⟨.assign (.deref ⟨pointer, .zero⟩ out) (.var ⟨array, .zero⟩ 1), .zero⟩], []⟩] }
  faultless := by cases redirected <;> rfl

/-- The store of such a function. -/
def outStore : Statement :=
  let pointer : CType := .pointer (.char .char)
  ⟨.assign (.deref ⟨pointer, .zero⟩ (.var ⟨.pointer pointer, .zero⟩ 0)) (.var ⟨.array (.char .char) (some 8), .zero⟩ 1), .zero⟩

/-- On the path that does not redirect the parameter the store lets out the array, and it is found if the other path leaves the
parameter without a local variable. -/
theorem store_storeThrough :
    ((ofGraph (storeThrough false)).run 10).converged = true ∧ Path (ofGraph (storeThrough false)) [⟨0, none, 2⟩] 2 ∧
      (ofGraph (storeThrough false)).liveAt? ⟨2, 0⟩ = some outStore ∧
      ⟨1, none, .stored "*out" .zero⟩ ∈ leaksOf ⟨(storeThrough false).function,
        (ofGraph (storeThrough false)).flow 2 0 ((ofGraph (storeThrough false)).pathState [⟨0, none, 2⟩])⟩ outStore ∧
      ⟨1, none, .stored "*out" .zero⟩ ∈ (ofGraph (storeThrough false)).leaks ((ofGraph (storeThrough false)).run 10) := by
  have hc : ((ofGraph (storeThrough false)).run 10).converged = true := by decide +kernel
  have hp : Path (ofGraph (storeThrough false)) [⟨0, none, 2⟩] 2 := .snoc .nil (by decide +kernel) rfl
  have hx : (ofGraph (storeThrough false)).liveAt? ⟨2, 0⟩ = some outStore := liveAt?_eq_some_iff.2 ⟨rfl, by decide +kernel⟩
  have hl : ⟨1, none, .stored "*out" .zero⟩ ∈ leaksOf ⟨(storeThrough false).function,
      (ofGraph (storeThrough false)).flow 2 0 ((ofGraph (storeThrough false)).pathState [⟨0, none, 2⟩])⟩ outStore := by
    decide +kernel
  have hunredirected : (((ofGraph (storeThrough false)).run 10).stateAt? 2).all fun s =>
      (value ⟨(storeThrough false).function, s⟩ (.var ⟨.pointer (.pointer (.char .char)), .zero⟩ 0)).locals.isEmpty := by
    decide +kernel
  obtain ⟨s, hs, hfound, hvalue⟩ := store_of_path (storeThrough false) hc hp hx rfl hl
  refine ⟨hc, hp, hx, hl, hfound.2 (.inl ⟨hvalue (by decide +kernel), fun a ha => ?_⟩)⟩
  obtain rfl := Option.some.inj ha
  rw [hs] at hunredirected
  exact List.isEmpty_iff.1 hunredirected

/-- If the other path gives the parameter the address of a variable, the store is not found, though the array is let out as before. -/
theorem not_mem_leaks_storeThrough :
    ((ofGraph (storeThrough true)).run 10).converged = true ∧ (storeThrough true).liveness.fallsThrough 0 = true ∧
      Path (ofGraph (storeThrough true)) [⟨0, none, 2⟩] 2 ∧ (ofGraph (storeThrough true)).liveAt? ⟨2, 0⟩ = some outStore ∧
      ⟨1, none, .stored "*out" .zero⟩ ∈ leaksOf ⟨(storeThrough true).function,
        (ofGraph (storeThrough true)).flow 2 0 ((ofGraph (storeThrough true)).pathState [⟨0, none, 2⟩])⟩ outStore ∧
      ⟨1, none, .stored "*out" .zero⟩ ∉ (ofGraph (storeThrough true)).leaks ((ofGraph (storeThrough true)).run 10) := by
  refine ⟨by decide +kernel, by decide +kernel, .snoc .nil (by decide +kernel) rfl,
    liveAt?_eq_some_iff.2 ⟨rfl, by decide +kernel⟩, by decide +kernel, ?_⟩
  change _ ∉ (OrdSet.toList _)
  decide +kernel

end Dataflow

end FlowLint.Escape
