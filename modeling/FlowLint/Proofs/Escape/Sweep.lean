import FlowLint.Escape.Analysis
import FlowLint.Proofs.Escape.State
import FlowLint.Proofs.Flow.Closure

/-!
# What a visit and a sweep do

What is known after some visits is what comes in along arcs (`along?`). A visit of a block settles the arcs that leave it and no
others (`along?_visit`), and notes a change exactly if one of them is not settled yet (`visit_changed_iff`). So a sweep notes no
change exactly if all arcs are settled before it (`sweep_changed_iff`).
-/

namespace FlowLint.Escape

open FlowLint.Flow

namespace Dataflow

variable {d : Dataflow} {p : Progress} {b : Nat} {s : State}

/-! ## States in a block -/

/-- The statement at a place, if it is live. -/
def liveAt? (d : Dataflow) (q : Point) : Option Statement := (d.graph.statement? q).filter fun _ => d.live.isLive q

/-- The live statements of a block in front of an index, with their places. -/
def liveBefore (d : Dataflow) (b i : Nat) : List (Point × Statement) :=
  (((d.graph.statements b).zipIdx.take i).map fun (s, j) => (⟨b, j⟩, s)).filter fun (q, _) => d.live.isLive q

/-- The state in front of an index, from the state at the start of the block. -/
def flow (d : Dataflow) (b i : Nat) (s : State) : State :=
  (d.liveBefore b i).foldl (fun s step => Frame.transfer d.graph.function s step.2) s

/-- The state that leaves the source of an arc along it, from the state at the start of the source. -/
def flowAlong (d : Dataflow) (a : Arc) (s : State) : State :=
  d.flow a.source (a.jump.getD (d.graph.statements a.source).length) s

/-- Whether states leave along an arc: it is one of the end of its source, or its jump is live. -/
def isOpen (d : Dataflow) (a : Arc) : Bool :=
  match a.jump with
  | none => true
  | some i => d.live.isLiveJump d.graph ⟨a.source, i⟩

theorem liveAt?_eq_some_iff {q : Point} {x : Statement} :
    d.liveAt? q = some x ↔ d.graph.statement? q = some x ∧ d.live.isLive q = true := by
  unfold liveAt?
  rw [Option.filter_eq_some_iff]

/-- Live jumps are jumps that are live. -/
theorem isLiveJump_iff {q : Point} :
    d.live.isLiveJump d.graph q = true ↔ ∃ x, d.liveAt? q = some x ∧ x.asJump.isSome = true := by
  unfold Liveness.isLiveJump
  rw [Bool.and_eq_true]
  constructor
  · rintro ⟨hl, hj⟩
    cases hs : d.graph.statement? q with
    | none =>
      rw [hs] at hj
      cases hj
    | some x =>
      rw [hs] at hj
      exact ⟨x, liveAt?_eq_some_iff.2 ⟨hs, hl⟩, hj⟩
  · rintro ⟨x, hx, hj⟩
    obtain ⟨hs, hl⟩ := liveAt?_eq_some_iff.1 hx
    rw [hs]
    exact ⟨hl, hj⟩

theorem isLiveJump_of_live {q : Point} {x : Statement} (h : d.liveAt? q = some x) :
    d.live.isLiveJump d.graph q = true ↔ x.asJump.isSome = true := by
  rw [isLiveJump_iff, h]
  simp

theorem not_isLiveJump_of_dead {q : Point} (h : d.liveAt? q = none) : ¬d.live.isLiveJump d.graph q = true := by
  rw [isLiveJump_iff, h]
  rintro ⟨x, hx, -⟩
  cases hx

/-- The index of a live jump is one of its block. -/
theorem index_lt_of_isLiveJump {q : Point} (h : d.live.isLiveJump d.graph q = true) :
    q.index < (d.graph.statements q.block).length := by
  obtain ⟨x, hx, -⟩ := isLiveJump_iff.1 h
  exact Graph.index_lt (liveAt?_eq_some_iff.1 hx).1

/-- One more index adds its statement if it is live. -/
theorem liveBefore_succ (d : Dataflow) (b i : Nat) :
    d.liveBefore b (i + 1) = d.liveBefore b i ++ ((d.liveAt? ⟨b, i⟩).map fun x => (⟨b, i⟩, x)).toList := by
  unfold liveBefore liveAt? Graph.statement?
  rw [List.take_add_one, List.map_append, List.filter_append]
  refine congrArg _ ?_
  rw [List.getElem?_zipIdx]
  cases h : (d.graph.statements b)[i]? with
  | none => rfl
  | some x => cases hl : d.live.isLive ⟨b, i⟩ <;> simp [hl, Option.filter]

/-- In front of the end are all live statements. -/
theorem liveBefore_length (d : Dataflow) (b : Nat) : d.liveBefore b (d.graph.statements b).length = d.liveStatements b := by
  unfold liveBefore liveStatements
  rw [List.take_of_length_le (Nat.le_of_eq List.length_zipIdx)]

/-- A dead statement is passed over. -/
theorem flow_succ_of_dead {i : Nat} (h : d.liveAt? ⟨b, i⟩ = none) : d.flow b (i + 1) s = d.flow b i s := by
  unfold flow
  rw [liveBefore_succ, h]
  simp

/-- A live statement is passed. -/
theorem flow_succ_of_live {i : Nat} {x : Statement} (h : d.liveAt? ⟨b, i⟩ = some x) :
    d.flow b (i + 1) s = Frame.transfer d.graph.function (d.flow b i s) x := by
  unfold flow
  rw [liveBefore_succ, h]
  simp

/-- What the state at a start and each live statement have and give to the state behind it, the states in a block have. -/
theorem flow_induct {P : State → Prop} (h0 : P s)
    (hstep : ∀ i x, d.liveAt? ⟨b, i⟩ = some x → P (d.flow b i s) → P (Frame.transfer d.graph.function (d.flow b i s) x))
    (i : Nat) : P (d.flow b i s) := by
  induction i with
  | zero => exact h0
  | succ i ih =>
    cases h : d.liveAt? ⟨b, i⟩ with
    | none => exact (flow_succ_of_dead h).symm ▸ ih
    | some x => exact (flow_succ_of_live h).symm ▸ hstep i x h ih

/-! ## Walks -/

/-- A pass of a statement that is no jump, or at which the state was noted before. -/
theorem pass_of_noted {w : Walk} {q : Point} {x : Statement}
    (h : x.asJump.isSome = true → stateAtJump? w.atJumps q = some w.state) :
    d.pass w (q, x) = { w with state := Frame.transfer d.graph.function w.state x } :=
  if_neg fun hc => hc.2 (h hc.1)

/-- A pass of a jump at which another state was noted. -/
theorem pass_of_new {w : Walk} {q : Point} {x : Statement} (hj : x.asJump.isSome = true)
    (h : stateAtJump? w.atJumps q ≠ some w.state) :
    d.pass w (q, x) =
      ⟨Frame.transfer d.graph.function w.state x, (q, w.state) :: w.atJumps.filter fun e => e.1 != q, true⟩ :=
  if_pos ⟨hj, h⟩

/-- The state that is noted at a jump is found there. -/
theorem stateAtJump?_pass (w : Walk) (q : Point) (x : Statement) (r : Point) :
    stateAtJump? (d.pass w (q, x)).atJumps r =
      if r = q ∧ x.asJump.isSome = true then some w.state else stateAtJump? w.atJumps r := by
  by_cases h : x.asJump.isSome = true → stateAtJump? w.atJumps q = some w.state
  · rw [pass_of_noted h]
    split
    · rename_i hr
      rw [hr.1]
      exact h hr.2
    · rfl
  · obtain ⟨hj, hne⟩ := Classical.not_imp.1 h
    rw [pass_of_new hj hne]
    by_cases hr : r = q
    · rw [if_pos ⟨hr, hj⟩, hr]
      simp [stateAtJump?]
    · rw [if_neg fun h => hr h.1]
      have hfind : (fun e : Point × State => decide ((e.1 != q) = true ∧ (e.1 == r) = true)) = fun e => e.1 == r := by
        funext e
        by_cases he : e.1 = r
        · simp [he, hr]
        · simp [he]
      unfold stateAtJump?
      rw [List.find?_cons_of_neg (by simpa using Ne.symm hr), List.find?_filter, hfind]

/-- A pass notes a change exactly if another state was noted at a jump. -/
theorem pass_changed_iff (w : Walk) (q : Point) (x : Statement) :
    (d.pass w (q, x)).changed = false ↔
      w.changed = false ∧ (x.asJump.isSome = true → stateAtJump? w.atJumps q = some w.state) := by
  by_cases h : x.asJump.isSome = true → stateAtJump? w.atJumps q = some w.state
  · rw [pass_of_noted h]
    exact ⟨fun hc => ⟨hc, h⟩, fun hc => hc.1⟩
  · obtain ⟨hj, hne⟩ := Classical.not_imp.1 h
    rw [pass_of_new hj hne]
    exact ⟨fun hc => absurd hc.symm Bool.false_ne_true, fun hc => absurd hc.2 h⟩

theorem pass_state (w : Walk) (q : Point) (x : Statement) :
    (d.pass w (q, x)).state = Frame.transfer d.graph.function w.state x := by
  unfold pass
  split <;> rfl

/-- A walk up to an index. -/
def walk (d : Dataflow) (b i : Nat) (w : Walk) : Walk := (d.liveBefore b i).foldl d.pass w

theorem walk_succ_of_dead {w : Walk} {i : Nat} (h : d.liveAt? ⟨b, i⟩ = none) : d.walk b (i + 1) w = d.walk b i w := by
  unfold walk
  rw [liveBefore_succ, h]
  simp

theorem walk_succ_of_live {w : Walk} {i : Nat} {x : Statement} (h : d.liveAt? ⟨b, i⟩ = some x) :
    d.walk b (i + 1) w = d.pass (d.walk b i w) (⟨b, i⟩, x) := by
  unfold walk
  rw [liveBefore_succ, h]
  simp

/-- A walk has the state in front of its index. -/
theorem walk_state (w : Walk) (i : Nat) : (d.walk b i w).state = d.flow b i w.state := by
  induction i with
  | zero => rfl
  | succ i ih =>
    cases h : d.liveAt? ⟨b, i⟩ with
    | none => rw [walk_succ_of_dead h, flow_succ_of_dead h, ih]
    | some x => rw [walk_succ_of_live h, flow_succ_of_live h, pass_state, ih]

/-- A walk notes the states at the live jumps it passes. -/
theorem stateAtJump?_walk (w : Walk) (i : Nat) (q : Point) :
    stateAtJump? (d.walk b i w).atJumps q =
      if q.block = b ∧ q.index < i ∧ d.live.isLiveJump d.graph q = true then some (d.flow b q.index w.state)
      else stateAtJump? w.atJumps q := by
  induction i with
  | zero => rw [if_neg fun h => Nat.not_lt_zero _ h.2.1]; rfl
  | succ i ih =>
    by_cases hq : q = ⟨b, i⟩
    · subst hq
      rw [if_neg fun h => Nat.lt_irrefl _ h.2.1] at ih
      cases h : d.liveAt? ⟨b, i⟩ with
      | none => rw [walk_succ_of_dead h, ih, if_neg fun hc => not_isLiveJump_of_dead h hc.2.2]
      | some x =>
        rw [walk_succ_of_live h, stateAtJump?_pass, walk_state, ih]
        simp [isLiveJump_of_live h]
    · have hlt : q.block = b → (q.index < i + 1 ↔ q.index < i) := by
        refine fun hb => ⟨fun h => Nat.lt_of_le_of_ne (Nat.le_of_lt_succ h) fun hi => hq ?_, Nat.lt_succ_of_lt⟩
        rw [← hb, ← hi]
      have hstep : stateAtJump? (d.walk b (i + 1) w).atJumps q = stateAtJump? (d.walk b i w).atJumps q := by
        cases h : d.liveAt? ⟨b, i⟩ with
        | none => rw [walk_succ_of_dead h]
        | some x => rw [walk_succ_of_live h, stateAtJump?_pass, if_neg fun h => hq h.1]
      rw [hstep, ih]
      exact ite_congr (propext (and_congr_right fun hb => and_congr_left fun _ => (hlt hb).symm)) (fun _ => rfl) fun _ => rfl

/-- A walk notes a change exactly if another state was noted at a live jump it passes. -/
theorem walk_changed_iff (w : Walk) (i : Nat) :
    (d.walk b i w).changed = false ↔
      w.changed = false ∧ ∀ j < i, d.live.isLiveJump d.graph ⟨b, j⟩ = true →
        stateAtJump? w.atJumps ⟨b, j⟩ = some (d.flow b j w.state) := by
  induction i with
  | zero => simp [walk, liveBefore]
  | succ i ih =>
    have hat : stateAtJump? (d.walk b i w).atJumps ⟨b, i⟩ = stateAtJump? w.atJumps ⟨b, i⟩ := by
      rw [stateAtJump?_walk, if_neg fun h => Nat.lt_irrefl _ h.2.1]
    rw [Nat.forall_lt_succ_right, ← and_assoc, ← ih]
    cases h : d.liveAt? ⟨b, i⟩ with
    | none =>
      rw [walk_succ_of_dead h]
      exact ⟨fun hc => ⟨hc, fun hj => absurd hj (not_isLiveJump_of_dead h)⟩, fun hc => hc.1⟩
    | some x => rw [walk_succ_of_live h, pass_changed_iff, hat, walk_state, isLiveJump_of_live h]

/-! ## Visits -/

/-- The state that a block starts from, before anything comes in. -/
def seed (d : Dataflow) (b : Nat) : State := if b = d.graph.entry then Frame.initial d.graph.function else .empty

/-- A block starts from the join of what comes in. -/
theorem inputOf_eq (d : Dataflow) (p : Progress) (b : Nat) :
    d.inputOf p b = (((d.incoming[b]?).getD []).filterMap (along? p)).foldl State.join (d.seed b) := by
  rw [List.foldl_filterMap]
  unfold inputOf seed
  congr
  funext s a
  cases along? p a <;> rfl

/-- What a block starts from depends on what comes in alone. -/
theorem inputOf_congr {p q : Progress} (h : ∀ a, along? p a = along? q a) (b : Nat) : d.inputOf p b = d.inputOf q b := by
  rw [inputOf_eq, inputOf_eq, funext h]

/-- The walk of a visit, through the whole block. -/
theorem visit_eq (d : Dataflow) (p : Progress) (b : Nat) :
    d.visit p b =
      let w := d.walk b (d.graph.statements b).length ⟨d.inputOf p b, p.atJumps, p.changed⟩
      ⟨p.ins.set b (some (d.inputOf p b)), p.outs.set b (some w.state), w.atJumps,
        w.changed || (p.outs[b]?).join != some w.state⟩ := by
  unfold walk
  rw [liveBefore_length]
  rfl

theorem visit_ins_length (p : Progress) (b : Nat) : (d.visit p b).ins.length = p.ins.length := List.length_set

theorem visit_outs_length (p : Progress) (b : Nat) : (d.visit p b).outs.length = p.outs.length := List.length_set

/-- A visit settles the arcs that leave its block, and no others. -/
theorem along?_visit (hb : b < p.outs.length) (a : Arc) :
    along? (d.visit p b) a = if a.source = b ∧ d.isOpen a = true then some (d.flowAlong a (d.inputOf p b)) else along? p a := by
  obtain ⟨source, jump, target⟩ := a
  rw [visit_eq]
  cases jump with
  | none =>
    by_cases h : source = b
    · subst h
      simp [along?, isOpen, flowAlong, walk_state, hb]
    · simp [along?, isOpen, List.getElem?_set_ne (Ne.symm h), h]
  | some i =>
    have hlt : d.live.isLiveJump d.graph ⟨source, i⟩ = true → i < (d.graph.statements source).length := index_lt_of_isLiveJump
    simp only [along?, isOpen, flowAlong, stateAtJump?_walk, Option.getD_some]
    refine ite_congr (propext ⟨fun h => ⟨h.1, h.2.2⟩, fun h => ⟨h.1, ?_, h.2⟩⟩) (fun h => ?_) fun _ => rfl
    · exact h.1 ▸ hlt h.2
    · rw [h.1]

/-- A visit notes a change exactly if an arc that leaves its block is not settled. -/
theorem visit_changed_iff :
    (d.visit p b).changed = false ↔
      p.changed = false ∧ ∀ a, a.source = b → d.isOpen a = true → along? p a = some (d.flowAlong a (d.inputOf p b)) := by
  rw [visit_eq]
  simp only [Bool.or_eq_false_iff, walk_changed_iff, walk_state, bne_eq_false_iff_eq, and_assoc]
  refine and_congr_right fun _ => ⟨?_, fun h => ⟨fun j hj hl => h ⟨b, some j, 0⟩ rfl hl, h ⟨b, none, 0⟩ rfl rfl⟩⟩
  rintro ⟨hjumps, hout⟩ ⟨source, jump, target⟩ hs ho
  dsimp only at hs
  subst hs
  cases jump with
  | none => exact hout
  | some j => exact hjumps j (index_lt_of_isLiveJump ho) ho

/-- A visit notes what its block starts from. -/
theorem visit_ins (hb : b < p.ins.length) (c : Nat) :
    ((d.visit p b).ins[c]?).join = if c = b then some (d.inputOf p b) else (p.ins[c]?).join := by
  rw [visit_eq]
  by_cases h : c = b
  · subst h
    simp [hb]
  · simp [List.getElem?_set_ne (Ne.symm h), h]

/-! ## Sweeps -/

/-- What is known of the blocks of a graph. -/
structure Fits (d : Dataflow) (p : Progress) : Prop where
  ins_length : p.ins.length = d.graph.size
  outs_length : p.outs.length = d.graph.size

theorem Fits.visit (h : d.Fits p) (b : Nat) : d.Fits (d.visit p b) :=
  ⟨(visit_ins_length p b).trans h.ins_length, (visit_outs_length p b).trans h.outs_length⟩

theorem Fits.visits (h : d.Fits p) (l : List Nat) : d.Fits (l.foldl d.visit p) := by
  induction l generalizing p with
  | nil => exact h
  | cons b l ih => exact ih (h.visit b)

/-- What a state along an arc comes from: an earlier visit of the source. -/
theorem along?_visits_cases (hp : d.Fits p) {l : List Nat} (hl : ∀ b ∈ l, b < d.graph.size) {a : Arc} {s : State}
    (h : along? (l.foldl d.visit p) a = some s) : (a.source ∈ l ∧ d.isOpen a = true) ∨ along? p a = some s := by
  induction l generalizing p with
  | nil => exact .inr h
  | cons b l ih =>
    rcases ih (hp.visit b) (fun c hc => hl c (List.mem_cons_of_mem b hc)) h with ⟨hs, ho⟩ | h
    · exact .inl ⟨List.mem_cons_of_mem b hs, ho⟩
    · rw [along?_visit (hp.outs_length ▸ hl b List.mem_cons_self)] at h
      split at h
      · rename_i hc
        exact .inl ⟨hc.1 ▸ List.mem_cons_self, hc.2⟩
      · exact .inr h

/-- Visits of other blocks leave what a block starts from. -/
theorem visits_ins_of_not_mem {l : List Nat} {c : Nat} (hc : c ∉ l) (p : Progress) :
    ((l.foldl d.visit p).ins[c]?).join = (p.ins[c]?).join := by
  induction l generalizing p with
  | nil => rfl
  | cons b l ih =>
    rw [List.mem_cons, not_or] at hc
    rw [List.foldl_cons, ih hc.2, visit_eq]
    simp [List.getElem?_set_ne (Ne.symm hc.1)]

/-- What a block starts from is noted when it is visited last. -/
theorem visits_ins (hp : d.Fits p) {pre post : List Nat} (hb : b < d.graph.size) (hpost : b ∉ post) :
    (((pre ++ b :: post).foldl d.visit p).ins[b]?).join = some (d.inputOf (pre.foldl d.visit p) b) := by
  rw [List.foldl_append, List.foldl_cons, visits_ins_of_not_mem hpost, visit_ins ((hp.visits pre).ins_length ▸ hb), if_pos rfl]

/-- The arcs that leave some blocks are settled: what comes in along them is what leaves their sources. -/
def Settled (d : Dataflow) (p : Progress) (l : List Nat) : Prop :=
  ∀ a, a.source ∈ l → d.isOpen a = true → along? p a = some (d.flowAlong a (d.inputOf p a.source))

theorem Settled.congr {q : Progress} {l : List Nat} (h : d.Settled p l) (hpq : ∀ a, along? p a = along? q a) :
    d.Settled q l := by
  intro a ha ho
  rw [← hpq, h a ha ho, inputOf_congr hpq]

/-- Visits of blocks whose arcs are settled leave what comes in along all arcs. -/
theorem along?_visits_of_settled (hp : d.Fits p) {l : List Nat} (hl : ∀ b ∈ l, b < d.graph.size) (h : d.Settled p l) (a : Arc) :
    along? (l.foldl d.visit p) a = along? p a := by
  induction l generalizing p with
  | nil => rfl
  | cons b l ih =>
    have hstep : ∀ a, along? (d.visit p b) a = along? p a := by
      intro a
      rw [along?_visit (hp.outs_length ▸ hl b List.mem_cons_self)]
      split
      · rename_i hc
        rw [h a (hc.1 ▸ List.mem_cons_self) hc.2, hc.1]
      · rfl
    have hrest : d.Settled p l := fun a ha => h a (List.mem_cons_of_mem b ha)
    rw [List.foldl_cons, ih (hp.visit b) (fun c hc => hl c (List.mem_cons_of_mem b hc))
      (hrest.congr fun a => (hstep a).symm), hstep]

/-- Visits note no change exactly if the arcs that leave their blocks are settled. -/
theorem visits_changed_iff (hp : d.Fits p) {l : List Nat} (hl : ∀ b ∈ l, b < d.graph.size) :
    (l.foldl d.visit p).changed = false ↔ p.changed = false ∧ d.Settled p l := by
  induction l generalizing p with
  | nil => exact ⟨fun h => ⟨h, fun a ha => absurd ha List.not_mem_nil⟩, fun h => h.1⟩
  | cons b l ih =>
    have hb : b < d.graph.size := hl b List.mem_cons_self
    rw [List.foldl_cons, ih (hp.visit b) fun c hc => hl c (List.mem_cons_of_mem b hc), visit_changed_iff, and_assoc]
    refine and_congr_right fun _ => ?_
    have hone : (∀ a, a.source = b → d.isOpen a = true → along? p a = some (d.flowAlong a (d.inputOf p b))) ↔
        d.Settled p [b] := by
      unfold Settled
      refine forall_congr' fun a => ?_
      rw [List.mem_singleton]
      exact ⟨fun h hs => hs ▸ h hs, fun h hs => by have := h hs; rwa [hs] at this⟩
    have hkeep : d.Settled p [b] → ∀ a, along? (d.visit p b) a = along? p a := fun h =>
      along?_visits_of_settled hp (l := [b]) (fun c hc => List.mem_singleton.1 hc ▸ hb) h
    rw [hone]
    constructor
    · rintro ⟨hself, hrest⟩ a ha
      rcases List.mem_cons.1 ha with ha | ha
      · exact hself a (List.mem_singleton.2 ha)
      · exact (hrest.congr (hkeep hself)) a ha
    · intro h
      have hself : d.Settled p [b] := fun a ha => h a (List.mem_singleton.1 ha ▸ List.mem_cons_self)
      have hrest : d.Settled p l := fun a ha => h a (List.mem_cons_of_mem b ha)
      exact ⟨hself, hrest.congr fun a => (hkeep hself a).symm⟩

/-- Forgetting whether the last sweep changed something changes nothing along arcs. -/
theorem along?_unchanged (p : Progress) (a : Arc) : along? { p with changed := false } a = along? p a := by
  unfold along?
  cases a.jump <;> rfl

/-- What is known after some sweeps. -/
def after (d : Dataflow) : Nat → Progress
  | 0 => d.start
  | n + 1 => d.sweep (d.after n)

theorem Fits.unchanged (h : d.Fits p) : d.Fits { p with changed := false } := ⟨h.ins_length, h.outs_length⟩

theorem fits_after (d : Dataflow) (n : Nat) : d.Fits (d.after n) := by
  induction n with
  | zero => exact ⟨List.length_replicate, List.length_replicate⟩
  | succ n ih => exact ih.unchanged.visits d.order

/-- A sweep changes nothing exactly if all arcs are settled. -/
theorem sweep_changed_iff (hp : d.Fits p) (hl : ∀ b ∈ d.order, b < d.graph.size) :
    (d.sweep p).changed = false ↔ d.Settled p d.order := by
  unfold sweep
  rw [visits_changed_iff hp.unchanged hl]
  exact ⟨fun h => h.2.congr (along?_unchanged p), fun h => ⟨rfl, h.congr fun a => (along?_unchanged p a).symm⟩⟩

/-- The first visits of a sweep over settled arcs leave what comes in along all arcs. -/
theorem along?_visits_of_settled_order (hp : d.Fits p) (hl : ∀ b ∈ d.order, b < d.graph.size) (h : d.Settled p d.order)
    {pre post : List Nat} (ho : d.order = pre ++ post) (a : Arc) :
    along? (pre.foldl d.visit { p with changed := false }) a = along? p a := by
  have hpre : ∀ b ∈ pre, b ∈ d.order := fun b hb => ho ▸ List.mem_append_left post hb
  have hset : d.Settled { p with changed := false } pre :=
    Settled.congr (fun a ha => h a (hpre _ ha)) fun a => (along?_unchanged p a).symm
  rw [along?_visits_of_settled hp.unchanged (fun b hb => hl b (hpre b hb)) hset, along?_unchanged]

/-- A sweep over settled arcs leaves what comes in along all arcs. -/
theorem along?_sweep_of_settled (hp : d.Fits p) (hl : ∀ b ∈ d.order, b < d.graph.size) (h : d.Settled p d.order) (a : Arc) :
    along? (d.sweep p) a = along? p a :=
  along?_visits_of_settled_order hp hl h (List.append_nil d.order).symm a

end Dataflow

end FlowLint.Escape
