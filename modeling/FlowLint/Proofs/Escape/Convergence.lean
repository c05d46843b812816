import Mathlib.Data.FinEnum
import Mathlib.Data.Finite.Prod
import Mathlib.Data.Finite.Sigma
import Mathlib.Data.Fintype.Powerset
import Mathlib.Order.OrderIsoNat
import FlowLint.Proofs.Escape.Monotone
import FlowLint.Proofs.Escape.Path

/-!
# When sweeps come to an end

Block states are replaced, not accumulated, so that a sweep may lose what an earlier one found. From some number on all caps are
large enough exactly if from some sweep on no sweep loses anything (`converges_iff`); then what is found grows among finitely many
facts. Sweeps lose nothing if no live statement looks up a variable that got its first entry since the sweep before
(`NoLateEntries`), as in a loop whose pointer was set in front of it (`converges_loopOfPointer`). Without this, sweeps may go on
forever: two loops that pass a pointer round keep its unknown origin apart from its real one (`not_converges_swapLoops`).
-/

namespace FlowLint.Escape

open FlowLint.Flow FlowLint.Escape.Frame

attribute [ext] Progress

/-- What comes in along arcs in the first case, and perhaps more, comes in in the second one. -/
def Progress.Below (p q : Progress) : Prop :=
  ∀ a s, Dataflow.along? p a = some s → ∃ t, Dataflow.along? q a = some t ∧ s ≤ t

namespace Dataflow

variable {d : Dataflow} {p q : Progress} {b : Nat} {s t : State}

theorem below_of_eq (h : ∀ a, along? p a = along? q a) : p.Below q := fun a s hs => ⟨s, h a ▸ hs, State.le_refl s⟩

/-- What is below each other comes in the same along all arcs. -/
theorem along?_eq_of_below (h : p.Below q) (h' : q.Below p) (a : Arc) : along? p a = along? q a := by
  cases hp : along? p a with
  | none =>
    cases hq : along? q a with
    | none => rfl
    | some t =>
      obtain ⟨s, hs, -⟩ := h' a t hq
      rw [hp] at hs
      cases hs
  | some s =>
    obtain ⟨t, ht, hst⟩ := h a s hp
    obtain ⟨s', hs', hts⟩ := h' a t ht
    rw [hp, Option.some.injEq] at hs'
    rw [ht, State.le_antisymm hst (hs' ▸ hts)]

/-! ## Sweeps that lose nothing -/

/-- No live statement of a block looks up a variable that has an entry from the second state at the start alone. -/
def ReadsKnown (d : Dataflow) (b : Nat) (s t : State) : Prop :=
  ∀ i x, d.liveAt? ⟨b, i⟩ = some x → ∀ v ∈ consulted ⟨d.graph.function, d.flow b i t⟩ x,
    ((d.flow b i t).get? v).isSome = true → ((d.flow b i s).get? v).isSome = true

instance (d : Dataflow) (b : Nat) (s t : State) : Decidable (d.ReadsKnown b s t) :=
  -- By going through the list, since the variables are a finite type as well, and far too large a one.
  decidable_of_iff (∀ i < (d.graph.statements b).length, ∀ x ∈ d.liveAt? ⟨b, i⟩,
      ((consulted ⟨d.graph.function, d.flow b i t⟩ x).all fun v =>
        decide (((d.flow b i t).get? v).isSome = true → ((d.flow b i s).get? v).isSome = true)) = true)
    ⟨fun h i x hx v hv =>
      of_decide_eq_true (List.all_eq_true.1 (h i (Graph.index_lt (liveAt?_eq_some_iff.1 hx).1) x hx) v hv),
    fun h i _ x hx => List.all_eq_true.2 fun v hv => decide_eq_true (h i x hx v hv)⟩

/-- Each state that comes in has origins in each entry. -/
def FilledAlong (p : Progress) : Prop := ∀ a s, along? p a = some s → s.Filled

theorem initial_filled (f : Function) : (initial f).Filled := by
  rw [State.initial_eq]
  exact State.filled_empty.assign fun _ => singleton_filled .unknown

theorem seed_filled (d : Dataflow) (b : Nat) : (d.seed b).Filled := by
  unfold seed
  split
  · exact initial_filled _
  · exact State.filled_empty

theorem FilledAlong.inputOf (h : FilledAlong p) (b : Nat) : (d.inputOf p b).Filled := by
  rw [inputOf_eq]
  refine (d.seed_filled b).foldl_join fun t ht => ?_
  obtain ⟨a, -, ha⟩ := List.mem_filterMap.1 ht
  exact h a t ha

theorem flow_filled (h : s.Filled) (i : Nat) : (d.flow b i s).Filled :=
  flow_induct (P := State.Filled) h (fun _ x _ hs => transfer_filled hs x) i

theorem FilledAlong.visit (h : FilledAlong p) (hb : b < p.outs.length) : FilledAlong (d.visit p b) := by
  intro a s hs
  rw [along?_visit hb] at hs
  split at hs
  · exact Option.some.inj hs ▸ flow_filled (h.inputOf b) _
  · exact h a s hs

/-- A block starts from more if more comes in. -/
theorem inputOf_mono (h : p.Below q) (b : Nat) : d.inputOf p b ≤ d.inputOf q b := by
  rw [inputOf_eq, inputOf_eq]
  refine State.foldl_join_mono (State.le_refl _) fun s hs => ?_
  obtain ⟨a, ha, hs⟩ := List.mem_filterMap.1 hs
  obtain ⟨t, ht, hst⟩ := h a s hs
  exact ⟨t, List.mem_filterMap.2 ⟨a, ha, ht⟩, hst⟩

/-- Passing live statements keeps the order of states, if what they look up is known. -/
theorem flow_mono (h : s ≤ t) (hs : s.Filled) (hr : d.ReadsKnown b s t) (i : Nat) : d.flow b i s ≤ d.flow b i t := by
  induction i with
  | zero => exact h
  | succ i ih =>
    cases hx : d.liveAt? ⟨b, i⟩ with
    | none => rwa [flow_succ_of_dead hx, flow_succ_of_dead hx]
    | some x =>
      rw [flow_succ_of_live hx, flow_succ_of_live hx]
      exact transfer_mono ih (flow_filled hs i) (hr i x hx)

/-- A visit loses nothing, if what its statements look up is known. -/
theorem visit_below (hp : d.Fits p) (hq : d.Fits q) (h : p.Below q) (hf : FilledAlong p) (hb : b < d.graph.size)
    (hr : d.ReadsKnown b (d.inputOf p b) (d.inputOf q b)) : (d.visit p b).Below (d.visit q b) := by
  intro a s hs
  rw [along?_visit (hp.outs_length ▸ hb)] at hs
  rw [along?_visit (hq.outs_length ▸ hb)]
  split at hs
  · rename_i ha
    rw [if_pos ha]
    refine ⟨_, rfl, Option.some.inj hs ▸ ?_⟩
    unfold flowAlong
    rw [ha.1]
    exact flow_mono (inputOf_mono h b) (hf.inputOf b) hr _
  · rename_i ha
    rw [if_neg ha]
    exact h a s hs

/-- Visits lose nothing, if what their statements look up is known at each of them. -/
theorem visits_below {l : List Nat} (hl : ∀ b ∈ l, b < d.graph.size) (hp : d.Fits p) (hq : d.Fits q) (h : p.Below q)
    (hf : FilledAlong p) (hr : ∀ pre b post, l = pre ++ b :: post →
      d.ReadsKnown b (d.inputOf (pre.foldl d.visit p) b) (d.inputOf (pre.foldl d.visit q) b)) :
    (l.foldl d.visit p).Below (l.foldl d.visit q) ∧ FilledAlong (l.foldl d.visit p) := by
  induction l generalizing p q with
  | nil => exact ⟨h, hf⟩
  | cons b l ih =>
    have hb := hl b List.mem_cons_self
    refine ih (fun c hc => hl c (List.mem_cons_of_mem b hc)) (hp.visit b) (hq.visit b) ?_ (hf.visit (hp.outs_length ▸ hb)) ?_
    · exact visit_below hp hq h hf hb (hr [] b l rfl)
    · exact fun pre c post hc => hr (b :: pre) c post (by rw [hc]; rfl)

/-- In no sweep a live statement looks up a variable that has an entry there and had none when the statement was passed in the
sweep before. -/
def NoLateEntries (d : Dataflow) : Prop :=
  ∀ n, ∀ b ∈ d.order, ∀ s t, ((d.after (n + 1)).ins[b]?).join = some s → ((d.after (n + 2)).ins[b]?).join = some t →
    d.ReadsKnown b s t

/-- Then no sweep loses anything. -/
theorem after_below (hd : d.Covers) (h : d.NoLateEntries) (n : Nat) : (d.after n).Below (d.after (n + 1)) := by
  suffices hn : (d.after n).Below (d.after (n + 1)) ∧ FilledAlong (d.after n) from hn.1
  induction n with
  | zero =>
    have hnone : ∀ a s, along? (d.after 0) a ≠ some s := by
      intro a s hs
      unfold after start along? at hs
      cases ha : a.jump with
      | none =>
        rw [ha] at hs
        simp only [List.getElem?_replicate] at hs
        split at hs <;> cases hs
      | some i =>
        rw [ha] at hs
        cases hs
    exact ⟨fun a s hs => absurd hs (hnone a s), fun a s hs => absurd hs (hnone a s)⟩
  | succ n ih =>
    have hp := (d.fits_after n).unchanged
    have hq := (d.fits_after (n + 1)).unchanged
    refine visits_below hd.order_lt hp hq (fun a s hs => ?_) (fun a s hs => ?_) fun pre b post ho => ?_
    · rw [along?_unchanged] at hs
      rw [along?_unchanged]
      exact ih.1 a s hs
    · rw [along?_unchanged] at hs
      exact ih.2 a s hs
    · exact h n b (ho ▸ List.mem_append_right pre List.mem_cons_self) _ _ (sweep_ins hd (d.fits_after n) ho)
        (sweep_ins hd (d.fits_after (n + 1)) ho)

/-! ## Finitely many facts -/

instance : Finite Origin := by
  refine Finite.of_surjective (fun o : Option (Option VarId) => o.elim .nowhere fun v => v.elim .unknown .stack) fun o => ?_
  cases o with
  | nowhere => exact ⟨none, rfl⟩
  | stack v => exact ⟨some (some v), rfl⟩
  | unknown => exact ⟨some none, rfl⟩

/-- A fact: at the end of a block or at a jump in it some state is known, or one with an entry of a variable, or one in which
a variable has an origin. -/
abbrev Fact (g : Graph) := (Σ b : Fin g.size, Option (Fin (g.statements b).length)) × Option (VarId × Option Origin)

/-- The arc of a fact. -/
def Fact.arc {g : Graph} (e : Fact g) : Arc := ⟨e.1.1, e.1.2.map Fin.val, 0⟩

/-- What a fact says of a state. -/
def Fact.HoldsIn {g : Graph} (e : Fact g) (s : State) : Prop :=
  match e.2 with
  | none => True
  | some (v, none) => (s.get? v).isSome = true
  | some (v, some o) => o ∈ s.atOrEmpty v

/-- The facts that are known. -/
def facts (d : Dataflow) (p : Progress) : Set (Fact d.graph) := {e | ∃ s, along? p e.arc = some s ∧ e.HoldsIn s}

/-- Where nothing is lost, facts stay. -/
theorem facts_mono (h : p.Below q) : d.facts p ⊆ d.facts q := by
  rintro ⟨place, what⟩ ⟨s, hs, he⟩
  obtain ⟨t, ht, hst⟩ := h _ s hs
  refine ⟨t, ht, ?_⟩
  match what with
  | none => trivial
  | some (v, none) =>
    obtain ⟨O, hO⟩ := Option.isSome_iff_exists.1 he
    obtain ⟨O', hO', -⟩ := hst v O hO
    exact Option.isSome_iff_exists.2 ⟨O', hO'⟩
  | some (v, some o) => exact State.atOrEmpty_mono hst he

/-- What comes in along an arc depends on its source and its jump. -/
theorem along?_congr {a a' : Arc} (hs : a.source = a'.source) (hj : a.jump = a'.jump) : along? p a = along? p a' := by
  unfold along?
  rw [hs, hj]

/-- States about which the same facts hold are below each other. -/
theorem below_of_facts (hd : d.Covers) {n : Nat} (h : d.facts (d.after n) ⊆ d.facts q) : (d.after n).Below q := by
  intro a s hs
  obtain ⟨hsrc, ho⟩ := mem_order_of_along? hd hs
  obtain ⟨place, hplace⟩ : ∃ place : Σ b : Fin d.graph.size, Option (Fin (d.graph.statements b).length),
      a.source = place.1 ∧ a.jump = place.2.map Fin.val := by
    cases hj : a.jump with
    | none => exact ⟨⟨⟨a.source, hd.order_lt _ hsrc⟩, none⟩, rfl, rfl⟩
    | some i =>
      rw [isOpen, hj] at ho
      exact ⟨⟨⟨a.source, hd.order_lt _ hsrc⟩, some ⟨i, index_lt_of_isLiveJump ho⟩⟩, rfl, rfl⟩
  have hfact : ∀ what, Fact.HoldsIn (place, what) s → ∃ t, along? q a = some t ∧ Fact.HoldsIn (g := d.graph) (place, what) t := by
    intro what he
    have hmem : (place, what) ∈ d.facts (d.after n) := ⟨s, (along?_congr hplace.1.symm hplace.2.symm).trans hs, he⟩
    obtain ⟨t, ht, he⟩ := h hmem
    exact ⟨t, (along?_congr hplace.1 hplace.2).trans ht, he⟩
  obtain ⟨t, ht, -⟩ := hfact none trivial
  refine ⟨t, ht, fun v O hO => ?_⟩
  obtain ⟨t₁, ht₁, he₁⟩ := hfact (some (v, none)) (Option.isSome_iff_exists.2 ⟨O, hO⟩)
  obtain rfl : t = t₁ := Option.some.inj (ht.symm.trans ht₁)
  obtain ⟨O', hO'⟩ := Option.isSome_iff_exists.1 he₁
  refine ⟨O', hO', fun o hmem => ?_⟩
  obtain ⟨t₂, ht₂, he₂⟩ := hfact (some (v, some o)) (State.mem_atOrEmpty.2 ⟨O, hO, hmem⟩)
  obtain rfl : t = t₂ := Option.some.inj (ht.symm.trans ht₂)
  obtain ⟨A, hA, hmem⟩ := State.mem_atOrEmpty.1 he₂
  obtain rfl : O' = A := Option.some.inj (hO'.symm.trans hA)
  exact hmem

/-- If from some sweep on nothing is lost, at some sweep nothing is new. -/
theorem exists_along?_eq (hd : d.Covers) {n : Nat} (h : ∀ m ≥ n, (d.after m).Below (d.after (m + 1))) :
    ∃ m, ∀ a, along? (d.after (m + 1)) a = along? (d.after m) a := by
  have hmono : Monotone fun k => d.facts (d.after (n + k)) :=
    monotone_nat_of_le_succ fun k => facts_mono (h (n + k) (Nat.le_add_right n k))
  obtain ⟨k, hk⟩ := WellFoundedGT.monotone_chain_condition ⟨_, hmono⟩
  have heq : d.facts (d.after (n + k)) = d.facts (d.after (n + k + 1)) := hk (k + 1) (Nat.le_succ k)
  exact ⟨n + k, along?_eq_of_below (below_of_facts hd heq.symm.subset) (below_of_facts hd heq.subset)⟩

/-! ## Ends of sweeps -/

/-- Visits of other blocks leave what comes in along an arc. -/
theorem along?_visits_of_not_mem (hp : d.Fits p) {l : List Nat} (hl : ∀ b ∈ l, b < d.graph.size) {a : Arc} (ha : a.source ∉ l) :
    along? (l.foldl d.visit p) a = along? p a := by
  induction l generalizing p with
  | nil => rfl
  | cons b l ih =>
    rw [List.mem_cons, not_or] at ha
    rw [List.foldl_cons, ih (hp.visit b) (fun c hc => hl c (List.mem_cons_of_mem b hc)) ha.2,
      along?_visit (hp.outs_length ▸ hl b List.mem_cons_self), if_neg fun h => ha.1 h.1]

/-- If visits of different blocks leave what comes in along all arcs, these are settled: none is set twice. -/
theorem settled_of_along?_eq (hp : d.Fits p) {l : List Nat} (hl : ∀ b ∈ l, b < d.graph.size) (hn : l.Nodup)
    (h : ∀ a, along? (l.foldl d.visit p) a = along? p a) : d.Settled p l := by
  induction l generalizing p with
  | nil => exact fun a ha => absurd ha List.not_mem_nil
  | cons b l ih =>
    obtain ⟨hb, hn⟩ := List.nodup_cons.1 hn
    have hvis := along?_visit (d := d) (hp.outs_length ▸ hl b List.mem_cons_self)
    have hl' : ∀ c ∈ l, c < d.graph.size := fun c hc => hl c (List.mem_cons_of_mem b hc)
    have hstep : ∀ a, along? (d.visit p b) a = along? p a := by
      intro a
      by_cases hs : a.source = b
      · rw [← along?_visits_of_not_mem (hp.visit b) hl' (hs ▸ hb)]
        exact h a
      · rw [hvis, if_neg fun h => hs h.1]
    have hrest : d.Settled p l := (ih (hp.visit b) hl' hn fun a => (h a).trans (hstep a).symm).congr hstep
    intro a ha ho
    rcases List.mem_cons.1 ha with hs | hs
    · rw [← hstep, hvis, if_pos ⟨hs, ho⟩, hs]
    · exact hrest a hs ho

/-- A sweep that leaves what comes in along all arcs notes no change. -/
theorem after_changed_of_along?_eq (hd : d.Covers) {n : Nat} (h : ∀ a, along? (d.after (n + 1)) a = along? (d.after n) a) :
    (d.after (n + 1)).changed = false := by
  rw [after_succ, sweep_changed_iff (d.fits_after n) hd.order_lt]
  refine (settled_of_along?_eq (d.fits_after n).unchanged hd.order_lt hd.order_nodup fun a => ?_).congr (along?_unchanged _)
  rw [along?_unchanged]
  exact h a

/-- Behind a sweep that notes no change each sweep finds what the one before it found. -/
theorem along?_after_succ_of_settled (hd : d.Covers) {k m : Nat} (h : (d.after (k + 1)).changed = false) (hm : k ≤ m) (a : Arc) :
    along? (d.after (m + 1)) a = along? (d.after m) a := by
  obtain ⟨j, rfl⟩ := Nat.exists_eq_add_of_le hm
  rw [Nat.add_assoc, along?_after_of_settled hd h, along?_after_of_settled hd h]

/-- Whether an entry is late shows in the sweeps up to one that notes no change. -/
theorem noLateEntries_iff_of_settled (hd : d.Covers) {k : Nat} (h : (d.after (k + 1)).changed = false) :
    d.NoLateEntries ↔ ∀ n < k, ∀ b ∈ d.order, ∀ s ∈ ((d.after (n + 1)).ins[b]?).join,
      ∀ t ∈ ((d.after (n + 2)).ins[b]?).join, d.ReadsKnown b s t := by
  refine ⟨fun hn n _ b hb s hs t ht => hn n b hb s t hs ht, fun hn n b hb s t hs ht => ?_⟩
  by_cases hlt : n < k
  · exact hn n hlt b hb s hs t ht
  · -- both sweeps start the block from the same state
    have hsame := along?_after_succ_of_settled hd h (Nat.le_of_not_lt hlt)
    have hsame' := along?_after_succ_of_settled hd h (Nat.le_succ_of_le (Nat.le_of_not_lt hlt))
    rw [after_ins_of_unchanged hd (after_changed_of_along?_eq hd hsame) hb] at hs
    rw [after_ins_of_unchanged hd (after_changed_of_along?_eq hd hsame') hb, inputOf_congr hsame] at ht
    obtain rfl : s = t := Option.some.inj (hs.symm.trans ht)
    exact fun _ _ _ _ _ hentry => hentry

/-- From some number on all caps are large enough exactly if from some sweep on no sweep loses anything; and no sweep loses
anything if no live statement looks up a variable that got its first entry since the sweep before. -/
theorem converges_iff (g : Graph) :
    ((∃ n, ∀ cap ≥ n, ((ofGraph g).run cap).converged = true) ↔
      ∃ n, ∀ m ≥ n, ((ofGraph g).after m).Below ((ofGraph g).after (m + 1))) ∧
    ((ofGraph g).NoLateEntries → ∃ n, ∀ cap ≥ n, ((ofGraph g).run cap).converged = true) := by
  have hd := ofGraph_covers g
  have hiff : (∃ n, ∀ cap ≥ n, ((ofGraph g).run cap).converged = true) ↔
      ∃ n, ∀ m ≥ n, ((ofGraph g).after m).Below ((ofGraph g).after (m + 1)) := by
    constructor
    · rintro ⟨n, h⟩
      obtain ⟨k, -, hk⟩ := (run_converged_iff _ n).1 (h n (Nat.le_refl n))
      exact ⟨k, fun m hm => below_of_eq fun a => (along?_after_succ_of_settled hd hk hm a).symm⟩
    · rintro ⟨n, h⟩
      obtain ⟨m, hm⟩ := exists_along?_eq hd h
      refine ⟨m + 1, fun cap hcap => (run_converged_iff _ cap).2 ⟨m, hcap, after_changed_of_along?_eq hd hm⟩⟩
  exact ⟨hiff, fun h => hiff.2 ⟨0, fun m _ => after_below hd h m⟩⟩

/-- In the loop that gives a pointer the address of an array no entry is late, although the second sweep finds more than the first
one: the pointer has its entry from the block in front of the loop. -/
theorem converges_loopOfPointer :
    (ofGraph loopOfPointer).NoLateEntries ∧ ((ofGraph loopOfPointer).after 2).changed = true ∧
      ∃ n, ∀ cap ≥ n, ((ofGraph loopOfPointer).run cap).converged = true := by
  have hsettled : ((ofGraph loopOfPointer).after (2 + 1)).changed = false := by decide +kernel
  have hlate : (ofGraph loopOfPointer).NoLateEntries :=
    (noLateEntries_iff_of_settled (ofGraph_covers loopOfPointer) hsettled).2 (by decide +kernel)
  exact ⟨hlate, by decide +kernel, (converges_iff loopOfPointer).2 hlate⟩

/-- A run whose sweeps come back to what was known before never converges, if they change something until then. -/
theorem not_converges_of_return {n k : Nat} (h : d.after (n + (k + 1)) = d.after n)
    (hc : ∀ j < n + (k + 1), (d.after (j + 1)).changed = true) (cap : Nat) : (d.run cap).converged = false := by
  have hback : ∀ j, ∃ i < n + (k + 1), d.after (j + 1) = d.after (i + 1) := by
    intro j
    induction j with
    | zero => exact ⟨0, by omega, rfl⟩
    | succ j ih =>
      obtain ⟨i, hi, heq⟩ := ih
      by_cases hlt : i + 1 < n + (k + 1)
      · exact ⟨i + 1, hlt, by rw [after_succ, heq, ← after_succ]⟩
      · refine ⟨n, by omega, ?_⟩
        rw [after_succ, heq, show i + 1 = n + (k + 1) by omega, h, after_succ]
  rw [Bool.eq_false_iff, Ne, run_converged_iff]
  rintro ⟨j, -, hj⟩
  obtain ⟨i, hi, heq⟩ := hback j
  rw [heq, hc i hi] at hj
  exact absurd hj.symm Bool.false_ne_true

/-- Two loops that pass a pointer round: the first one gives `p` the address of an array in its second turn, and the second one
exchanges `p` and `r`. -/
def swapLoops : Graph where
  function :=
    let array : CType := .array (.char .char) (some 8)
    let pointer : CType := .pointer (.char .char)
    let local_ (v : VarId) (name : String) (type : CType) : Variable := ⟨v, name, type, .automatic, .localVar, false, .zero⟩
    let x : Expr := .var ⟨array, .zero⟩ 0
    let p : Expr := .var ⟨pointer, .zero⟩ 1
    let q : Expr := .var ⟨pointer, .zero⟩ 2
    let r : Expr := .var ⟨pointer, .zero⟩ 3
    let t : Expr := .var ⟨pointer, .zero⟩ 4
    { (default : Function) with
      returnType := pointer
      vars := [local_ 0 "x" array, local_ 1 "p" pointer, local_ 2 "q" pointer, local_ 3 "r" pointer, local_ 4 "t" pointer]
      blocks :=
        [⟨0, [⟨.assign r (.nullptr ⟨.nullptr, .zero⟩), .zero⟩], [1]⟩,
         ⟨1, [⟨.assign p q, .zero⟩, ⟨.assign q x, .zero⟩], [1, 2]⟩,
         ⟨2, [⟨.assign t p, .zero⟩, ⟨.assign p r, .zero⟩, ⟨.assign r t, .zero⟩], [2, 3]⟩,
         ⟨3, [⟨.jump ⟨.return, none, none, some r⟩, .zero⟩], []⟩] }
  faultless := rfl

/-- In the first sweep `q` has no entry when `p` gets its origins, so that `p` is unknown, and the second loop exchanges this
unknown origin and the real ones in each further sweep. -/
theorem not_converges_swapLoops : ¬∃ n, ∀ cap ≥ n, ((ofGraph swapLoops).run cap).converged = true := by
  rintro ⟨n, h⟩
  have hreturn : (ofGraph swapLoops).after (4 + (1 + 1)) = (ofGraph swapLoops).after 4 :=
    Progress.ext (by decide +kernel) (by decide +kernel) (by decide +kernel) (by decide +kernel)
  have hc : ∀ j < 4 + (1 + 1), ((ofGraph swapLoops).after (j + 1)).changed = true := by decide +kernel
  have := h n (Nat.le_refl n)
  rw [not_converges_of_return hreturn hc] at this
  exact absurd this Bool.false_ne_true

end Dataflow

end FlowLint.Escape
