import FlowLint.Proofs.Escape.Path
import FlowLint.Proofs.Flow.Prune

/-!
# Successors of dead ends

A block may list successors though control never arrives at its end, for example behind a `break`. The analysis joins what they
carry like anything else, so that the states are joins over the arcs that control can take exactly if dead ends bring nothing new
(`stateAt?_eq_taken_iff`). Without such successors all runs have the same outcome exactly if the same blocks are visited and dead
ends bring nothing new at any visit (`prune_run_iff`).
-/

namespace FlowLint.Flow.Graph

variable {g : Graph}

/-- Whether control can take an arc if its jump is live: control arrives at the end of the source, or the arc is one of a jump. -/
def isTaken (g : Graph) (a : Arc) : Bool := a.jump.isSome || g.liveness.fallsThrough a.source

theorem prune_jumpsFrom (g : Graph) (index : Nat) (l : List Statement) : g.prune.jumpsFrom index l = g.jumpsFrom index l := by
  induction l generalizing index with
  | nil => rfl
  | cons s l ih =>
    unfold jumpsFrom
    rw [prune_destination?, ih]

/-- The pruned graph has the arcs that control can take. -/
theorem prune_arcsOf (g : Graph) (b : Nat) : g.prune.arcsOf b = (g.arcsOf b).filter g.isTaken := by
  unfold arcsOf
  rw [prune_successors, prune_statements, prune_jumpsFrom, List.filter_append]
  congr 1
  · cases hb : g.liveness.fallsThrough b with
    | false =>
      refine (List.filter_eq_nil_iff.2 fun a ha => ?_).symm
      obtain ⟨t, -, rfl⟩ := List.mem_map.1 ha
      simp [isTaken, hb]
    | true =>
      refine (List.filter_eq_self.2 fun a ha => ?_).symm
      obtain ⟨t, -, rfl⟩ := List.mem_map.1 ha
      simp [isTaken, hb]
  · refine (List.filter_eq_self.2 fun a ha => ?_).symm
    obtain ⟨e, -, rfl⟩ := List.mem_map.1 ha
    rfl

theorem prune_incoming (g : Graph) (b : Nat) : g.prune.incoming b = (g.incoming b).filter g.isTaken := by
  unfold incoming arcs
  rw [prune_size, funext (prune_arcsOf g), ← List.filter_flatMap, List.filter_filter, List.filter_filter]
  exact List.filter_congr fun a _ => Bool.and_comm _ _

end FlowLint.Flow.Graph

namespace FlowLint.Escape

open FlowLint.Flow FlowLint.Escape.Frame

namespace Frame

/-! ## Functions that differ in their blocks -/

section

variable (f : Function) (blocks : List Block) (s : State)

/-- The origins of an expression do not depend on the blocks of the function. -/
theorem places_withBlocks : ∀ e, places ⟨{ f with blocks := blocks }, s⟩ e = places ⟨f, s⟩ e
  | .addressOf n a => congrArg (fun p : Places => decay n p.address _) (places_withBlocks a)
  | .deref n a => congrArg (fun p : Places => decay n _ p.value) (places_withBlocks a)
  | .member n a _ arrow => congrArg (fun p : Places => decay n _ (if arrow then p.value else p.address)) (places_withBlocks a)
  | .index n a _ => congrArg (fun p : Places => decay n _ (if a.type.isArray then p.address else p.value)) (places_withBlocks a)
  | .binary n op a b => by
    cases op
    case comma => exact congrArg (fun p : Places => decay n p.value p.address) (places_withBlocks b)
    all_goals rfl
  | .cast n a => congrArg (fun p : Places => decay n p.value p.address) (places_withBlocks a)
  | .conditional n _ a b => by
    unfold places
    rw [places_withBlocks a, places_withBlocks b]
  | .var _ _ | .global _ _ | .string _ _ _ | .int _ _ | .float _ _ | .nullptr _ | .unary _ _ _ | .call _ _ _ _ | .new _
  | .other _ => rfl

theorem assignedRoots_withBlocks : ∀ e, assignedRoots ⟨{ f with blocks := blocks }, s⟩ e = assignedRoots ⟨f, s⟩ e
  | .cast _ a => assignedRoots_withBlocks a
  | .member _ a _ false => congrArg (List.map _) (assignedRoots_withBlocks a)
  | .member _ _ _ true => rfl
  | .index _ a _ => by
    unfold assignedRoots
    rw [assignedRoots_withBlocks a]
  | .var _ _ | .global _ _ | .string _ _ _ | .int _ _ | .float _ _ | .nullptr _ | .addressOf _ _ | .deref _ _
  | .unary _ _ _ | .binary _ _ _ _ | .conditional _ _ _ _ | .call _ _ _ _ | .new _ | .other _ => rfl

theorem pointsOutside_withBlocks (e : Expr) : pointsOutside ⟨{ f with blocks := blocks }, s⟩ e = pointsOutside ⟨f, s⟩ e := by
  unfold pointsOutside value
  rw [places_withBlocks]
  rfl

theorem outlives_withBlocks : ∀ e, outlives ⟨{ f with blocks := blocks }, s⟩ e = outlives ⟨f, s⟩ e
  | .cast _ a => outlives_withBlocks a
  | .deref _ a => pointsOutside_withBlocks f blocks s a
  | .member _ a _ true => pointsOutside_withBlocks f blocks s a
  | .member _ a _ false => outlives_withBlocks a
  | .index _ a _ => by
    unfold outlives
    rw [outlives_withBlocks a, pointsOutside_withBlocks]
  | .var _ _ | .global _ _ | .string _ _ _ | .int _ _ | .float _ _ | .nullptr _ | .addressOf _ _
  | .unary _ _ _ | .binary _ _ _ _ | .conditional _ _ _ _ | .call _ _ _ _ | .new _ | .other _ => rfl

theorem renderPlace_withBlocks : ∀ e, renderPlace { f with blocks := blocks } e = renderPlace f e
  | .cast _ a => renderPlace_withBlocks a
  | .deref _ a => congrArg ("*" ++ ·) (renderPlace_withBlocks a)
  | .member _ a field arrow => congrArg (· ++ (if arrow then "->" else ".") ++ field) (renderPlace_withBlocks a)
  | .index _ a _ => congrArg (· ++ "[]") (renderPlace_withBlocks a)
  | .var _ _ | .global _ _ | .string _ _ _ | .int _ _ | .float _ _ | .nullptr _ | .addressOf _ _
  | .unary _ _ _ | .binary _ _ _ _ | .conditional _ _ _ _ | .call _ _ _ _ | .new _ | .other _ => rfl

/-- What a statement does to a state does not depend on the blocks of the function. -/
theorem transfer_withBlocks (x : Statement) : transfer { f with blocks := blocks } s x = transfer f s x := by
  have h : updates ⟨{ f with blocks := blocks }, s⟩ x = updates ⟨f, s⟩ x := by
    unfold updates value address
    simp only [places_withBlocks, assignedRoots_withBlocks]
    rfl
  unfold transfer
  rw [h]

/-- What a statement lets out does not depend on the blocks of the function. -/
theorem leaksOf_withBlocks (x : Statement) : leaksOf ⟨{ f with blocks := blocks }, s⟩ x = leaksOf ⟨f, s⟩ x := by
  unfold leaksOf value address
  simp only [places_withBlocks, outlives_withBlocks, renderPlace_withBlocks]

end

end Frame

namespace Dataflow

variable {g : Graph} {p : Progress} {b : Nat}

/-! ## Joins over the arcs that control can take -/

/-- The join of what comes to a block along some arcs. -/
def joinAlong (d : Dataflow) (look : Arc → Option State) (arcs : List Arc) (b : Nat) : State :=
  (arcs.filterMap look).foldl State.join (d.seed b)

/-- Dead ends bring nothing to a block that does not come along other arcs. -/
def DeadEndsSilent (g : Graph) (look : Arc → Option State) (b : Nat) : Prop :=
  ∀ a ∈ g.incoming b, g.isTaken a = false → ∀ s, look a = some s →
    s ≤ (ofGraph g).joinAlong look ((g.incoming b).filter g.isTaken) b

/-- The arcs that control can take give the whole join exactly if dead ends bring nothing else. -/
theorem joinAlong_taken_iff (look : Arc → Option State) :
    (ofGraph g).joinAlong look ((g.incoming b).filter g.isTaken) b = (ofGraph g).joinAlong look (g.incoming b) b ↔
      DeadEndsSilent g look b := by
  constructor
  · intro h a ha _ s hs
    rw [h]
    exact State.le_foldl_join_of_mem (List.mem_filterMap.2 ⟨a, ha, hs⟩)
  · intro h
    refine State.le_antisymm (State.foldl_join_mono (State.le_refl _) fun s hs => ?_)
      (State.foldl_join_le_iff.2 ⟨State.le_foldl_join _ _, fun s hs => ?_⟩)
    · obtain ⟨a, ha, hs⟩ := List.mem_filterMap.1 hs
      exact ⟨s, List.mem_filterMap.2 ⟨a, (List.mem_filter.1 ha).1, hs⟩, State.le_refl s⟩
    · obtain ⟨a, ha, hs⟩ := List.mem_filterMap.1 hs
      cases ht : g.isTaken a with
      | false => exact h a ha ht s hs
      | true => exact State.le_foldl_join_of_mem (List.mem_filterMap.2 ⟨a, List.mem_filter.2 ⟨ha, ht⟩, hs⟩)

/-! ## The pruned graph -/

theorem prune_seed (g : Graph) (b : Nat) : (ofGraph g.prune).seed b = (ofGraph g).seed b := by
  unfold seed
  rw [show (ofGraph g.prune).graph.entry = (ofGraph g).graph.entry from g.prune_entry]
  rfl

/-- A block starts from the join over the arcs that control can take. -/
theorem prune_inputOf (g : Graph) (p : Progress) (b : Nat) :
    (ofGraph g.prune).inputOf p b = (ofGraph g).joinAlong (along? p) ((g.incoming b).filter g.isTaken) b := by
  rw [inputOf_eq, (ofGraph_covers g.prune).incoming_eq, prune_seed]
  exact congrArg (fun l => (List.filterMap (along? p) l).foldl State.join _) (g.prune_incoming b)

theorem inputOf_eq_joinAlong (g : Graph) (p : Progress) (b : Nat) :
    (ofGraph g).inputOf p b = (ofGraph g).joinAlong (along? p) (g.incoming b) b := by
  rw [inputOf_eq, (ofGraph_covers g).incoming_eq]
  rfl

/-- A block starts from the same exactly if dead ends bring nothing else. -/
theorem prune_inputOf_iff : (ofGraph g.prune).inputOf p b = (ofGraph g).inputOf p b ↔ DeadEndsSilent g (along? p) b := by
  rw [prune_inputOf, inputOf_eq_joinAlong, joinAlong_taken_iff]

theorem prune_liveStatements (g : Graph) (b : Nat) : (ofGraph g.prune).liveStatements b = (ofGraph g).liveStatements b := by
  unfold liveStatements
  rw [show (ofGraph g.prune).graph.statements b = (ofGraph g).graph.statements b from g.prune_statements b,
    show (ofGraph g.prune).live = (ofGraph g).live from g.prune_liveness]

theorem prune_pass (g : Graph) : (ofGraph g.prune).pass = (ofGraph g).pass := by
  funext w step
  unfold pass
  rw [show transfer (ofGraph g.prune).graph.function w.state step.2 = transfer (ofGraph g).graph.function w.state step.2 from
    transfer_withBlocks g.function _ w.state step.2]

/-- A visit is the same if the block starts from the same. -/
theorem prune_visit (h : (ofGraph g.prune).inputOf p b = (ofGraph g).inputOf p b) :
    (ofGraph g.prune).visit p b = (ofGraph g).visit p b := by
  unfold visit
  rw [h, prune_liveStatements, prune_pass]

theorem prune_replayStep (g : Graph) : (ofGraph g.prune).replayStep = (ofGraph g).replayStep := by
  funext r step
  unfold replayStep
  rw [show transfer (ofGraph g.prune).graph.function r.state step.2 = transfer (ofGraph g).graph.function r.state step.2 from
    transfer_withBlocks g.function _ r.state step.2,
    show leaksOf ⟨(ofGraph g.prune).graph.function, r.state⟩ step.2 = leaksOf ⟨(ofGraph g).graph.function, r.state⟩ step.2 from
    leaksOf_withBlocks g.function _ r.state step.2]

/-- The leaks of an outcome are the same. -/
theorem prune_leaks (g : Graph) (o : Outcome) : (ofGraph g.prune).leaks o = (ofGraph g).leaks o := by
  unfold leaks
  have hreplay : (ofGraph g.prune).replay o = (ofGraph g).replay o := by
    funext b
    unfold replay
    rw [prune_liveStatements, prune_replayStep]
  rw [hreplay, show (ofGraph g.prune).graph.size = (ofGraph g).graph.size from g.prune_size]

theorem prune_start (g : Graph) : (ofGraph g.prune).start = (ofGraph g).start := by
  unfold start
  rw [show (ofGraph g.prune).graph.size = (ofGraph g).graph.size from g.prune_size]

/-- Visits are the same if at each of them the block starts from the same. -/
theorem prune_visits {l : List Nat} (h : ∀ pre b post, l = pre ++ b :: post →
      (ofGraph g.prune).inputOf (pre.foldl (ofGraph g).visit p) b = (ofGraph g).inputOf (pre.foldl (ofGraph g).visit p) b) :
    l.foldl (ofGraph g.prune).visit p = l.foldl (ofGraph g).visit p := by
  induction l generalizing p with
  | nil => rfl
  | cons b l ih =>
    have hb : (ofGraph g.prune).visit p b = (ofGraph g).visit p b := prune_visit (h [] b l rfl)
    rw [List.foldl_cons, List.foldl_cons, hb]
    exact ih fun pre c post hc => h (b :: pre) c post (by rw [hc]; rfl)

/-- If the first sweep notes the same states, the same blocks are visited: they are the ones that have a state then. -/
theorem prune_order (h : ((ofGraph g.prune).after 1).ins = ((ofGraph g).after 1).ins) :
    (ofGraph g.prune).order = (ofGraph g).order := by
  have hmem : ∀ (g : Graph) (b : Nat), b ∈ g.reachable ↔ (((ofGraph g).after 1).ins[b]?).join.isSome = true :=
    fun g b => (exists_after_ins_iff (ofGraph_covers g) 0).symm.trans Option.isSome_iff_exists.symm
  have hfilter : ∀ g : Graph, g.reachable = (List.range g.size).filter fun b => (((ofGraph g).after 1).ins[b]?).join.isSome := by
    intro g
    have hself : g.reachable = (List.range g.size).filter fun b => decide (b ∈ g.reachable) := by
      unfold Graph.reachable reached
      refine List.filter_congr fun b hb => ?_
      simp [List.mem_filter, List.mem_range.1 hb]
    rw [hself]
    refine List.filter_congr fun b _ => ?_
    rw [Bool.eq_iff_iff, decide_eq_true_iff, hmem]
  change g.prune.reachable = g.reachable
  rw [hfilter, hfilter, h, g.prune_size]

/-- What is known when a block is visited in a sweep. -/
def before (d : Dataflow) (n : Nat) (pre : List Nat) : Progress := pre.foldl d.visit { d.after n with changed := false }

/-- If a sweep over the same blocks starts from what is known and notes the same states, it is the same sweep: up to each visit,
by induction on the number of visits, since what the block starts from is noted. -/
theorem prune_inputs {n : Nat} (horder : (ofGraph g.prune).order = (ofGraph g).order)
    (h : (ofGraph g.prune).after n = (ofGraph g).after n)
    (hins : ((ofGraph g.prune).after (n + 1)).ins = ((ofGraph g).after (n + 1)).ins) :
    ∀ k pre b post, pre.length = k → (ofGraph g).order = pre ++ b :: post →
      (ofGraph g.prune).inputOf ((ofGraph g).before n pre) b = (ofGraph g).inputOf ((ofGraph g).before n pre) b := by
  intro k
  induction k using Nat.strongRecOn with
  | ind k ih =>
    intro pre b post hk ho
    have hpre : pre.foldl (ofGraph g.prune).visit { (ofGraph g).after n with changed := false } = (ofGraph g).before n pre := by
      refine prune_visits fun pre' c post' hc => ih pre'.length ?_ pre' c (post' ++ b :: post) rfl ?_
      · rw [← hk, hc, List.length_append, List.length_cons]
        omega
      · rw [ho, hc, List.append_assoc, List.cons_append]
    have hb : (((ofGraph g.prune).after (n + 1)).ins[b]?).join = (((ofGraph g).after (n + 1)).ins[b]?).join := by rw [hins]
    rw [after_succ, after_succ, sweep_ins (ofGraph_covers g.prune) ((ofGraph g.prune).fits_after n) (horder.trans ho),
      sweep_ins (ofGraph_covers g) ((ofGraph g).fits_after n) ho, h, hpre, Option.some.injEq] at hb
    exact hb

/-- Dead ends bring nothing else at the visits of a sweep. -/
def SilentInSweep (g : Graph) (n : Nat) : Prop :=
  ∀ pre b post, (ofGraph g).order = pre ++ b :: post → DeadEndsSilent g (along? ((ofGraph g).before n pre)) b

/-- A sweep over the same blocks in which dead ends bring nothing else is the same. -/
theorem prune_after_succ {n : Nat} (horder : (ofGraph g.prune).order = (ofGraph g).order)
    (h : (ofGraph g.prune).after n = (ofGraph g).after n) (hs : SilentInSweep g n) :
    (ofGraph g.prune).after (n + 1) = (ofGraph g).after (n + 1) := by
  rw [after_succ, after_succ, sweep, sweep, horder, h]
  exact prune_visits fun pre b post ho => prune_inputOf_iff.2 (hs pre b post ho)

/-- Behind a sweep that changes nothing dead ends bring what they brought in it. -/
theorem SilentInSweep.of_unchanged {k n : Nat} (hs : SilentInSweep g k) (hk : ((ofGraph g).after (k + 1)).changed = false)
    (hn : k ≤ n) : SilentInSweep g n := by
  have hd := ofGraph_covers g
  have hset : (ofGraph g).Settled ((ofGraph g).after k) (ofGraph g).order :=
    (sweep_changed_iff ((ofGraph g).fits_after k) hd.order_lt).1 hk
  have hbefore : ∀ m, (∀ a, along? ((ofGraph g).after m) a = along? ((ofGraph g).after k) a) → ∀ pre post,
      (ofGraph g).order = pre ++ post → along? ((ofGraph g).before m pre) = along? ((ofGraph g).after k) := by
    intro m hm pre post ho
    have hset' : (ofGraph g).Settled ((ofGraph g).after m) (ofGraph g).order := hset.congr fun a => (hm a).symm
    funext a
    rw [before, along?_visits_of_settled_order ((ofGraph g).fits_after m) hd.order_lt hset' ho, hm]
  obtain ⟨j, rfl⟩ := Nat.exists_eq_add_of_le hn
  intro pre b post ho
  rw [hbefore _ (along?_after_of_settled hd hk j) pre _ ho]
  have hb := hs pre b post ho
  rwa [hbefore k (fun _ => rfl) pre _ ho] at hb

/-! ## Runs with the same outcome -/

/-- As long as sweeps change something, the runs show what the last sweep notes. -/
theorem prune_after_ins (h : ∀ cap, (ofGraph g.prune).run cap = (ofGraph g).run cap) {n : Nat}
    (hc : ∀ j < n, ((ofGraph g).after (j + 1)).changed = true)
    (ha : ∀ j ≤ n, (ofGraph g.prune).after j = (ofGraph g).after j) :
    ((ofGraph g.prune).after (n + 1)).ins = ((ofGraph g).after (n + 1)).ins := by
  have hc' : ∀ j < n, ((ofGraph g.prune).after (j + 1)).changed = true := by
    intro j hj
    rw [ha (j + 1) hj]
    exact hc j hj
  have hrun := h (n + 1)
  rw [run_succ _ hc, run_succ _ hc'] at hrun
  exact congrArg Outcome.ins hrun

theorem prune_order_of_run (h : ∀ cap, (ofGraph g.prune).run cap = (ofGraph g).run cap) :
    (ofGraph g.prune).order = (ofGraph g).order := by
  refine prune_order (prune_after_ins h (n := 0) (fun j hj => absurd hj (Nat.not_lt_zero j)) fun j hj => ?_)
  rw [Nat.le_zero.1 hj]
  exact prune_start g

/-- Then dead ends bring nothing else in the next sweep. -/
theorem silentInSweep_of_run (h : ∀ cap, (ofGraph g.prune).run cap = (ofGraph g).run cap) {n : Nat}
    (hc : ∀ j < n, ((ofGraph g).after (j + 1)).changed = true)
    (ha : ∀ j ≤ n, (ofGraph g.prune).after j = (ofGraph g).after j) : SilentInSweep g n := by
  intro pre b post ho
  exact prune_inputOf_iff.1
    (prune_inputs (prune_order_of_run h) (ha n (Nat.le_refl n)) (prune_after_ins h hc ha) _ pre b post rfl ho)

/-- The sweeps are the same while they change something, by induction on their number. -/
theorem prune_after_of_run (h : ∀ cap, (ofGraph g.prune).run cap = (ofGraph g).run cap) (n : Nat)
    (hc : ∀ j < n, ((ofGraph g).after (j + 1)).changed = true) :
    ∀ j ≤ n, (ofGraph g.prune).after j = (ofGraph g).after j := by
  induction n with
  | zero =>
    intro j hj
    rw [Nat.le_zero.1 hj]
    exact prune_start g
  | succ n ih =>
    intro j hj
    have hc' : ∀ j < n, ((ofGraph g).after (j + 1)).changed = true := fun j hj => hc j (Nat.lt_succ_of_lt hj)
    have hprev := ih hc'
    rcases Nat.lt_or_eq_of_le hj with hj | rfl
    · exact hprev j (Nat.le_of_lt_succ hj)
    · exact prune_after_succ (prune_order_of_run h) (hprev n (Nat.le_refl n)) (silentInSweep_of_run h hc' hprev)

/-- If all sweeps are the same, runs have the same outcome. -/
theorem prune_run_of_after (h : ∀ n, (ofGraph g.prune).after n = (ofGraph g).after n) (cap : Nat) :
    (ofGraph g.prune).run cap = (ofGraph g).run cap := by
  have hsweeps : ∀ cap n, (ofGraph g.prune).sweeps cap n ((ofGraph g).after n) =
      (ofGraph g).sweeps cap n ((ofGraph g).after n) := by
    intro cap
    induction cap with
    | zero => exact fun _ => rfl
    | succ cap ih =>
      intro n
      have hn : (ofGraph g.prune).sweep ((ofGraph g).after n) = (ofGraph g).after (n + 1) := by
        rw [← h n, ← after_succ, h (n + 1)]
      unfold sweeps
      dsimp only
      rw [hn, ih, ← after_succ]
  unfold run
  rw [prune_start]
  exact hsweeps cap 0

/-- All runs have the same outcome exactly if the same blocks are visited and dead ends bring nothing else in any sweep. -/
theorem prune_run_iff (g : Graph) :
    (∀ cap, (ofGraph g.prune).run cap = (ofGraph g).run cap) ↔
      (ofGraph g.prune).order = (ofGraph g).order ∧ ∀ n, SilentInSweep g n := by
  constructor
  · intro h
    refine ⟨prune_order_of_run h, fun n => ?_⟩
    rcases (ofGraph g).run_cases (n + 1) with ⟨k, hk, hc, hlast, -⟩ | ⟨hc, -⟩
    · exact (silentInSweep_of_run h hc (prune_after_of_run h k hc)).of_unchanged hlast (Nat.le_of_lt_succ hk)
    · have hc' : ∀ j < n, ((ofGraph g).after (j + 1)).changed = true := fun j hj => hc j (Nat.lt_succ_of_lt hj)
      exact silentInSweep_of_run h hc' (prune_after_of_run h n hc')
  · rintro ⟨horder, hs⟩
    refine prune_run_of_after fun n => ?_
    induction n with
    | zero => exact prune_start g
    | succ n ih => exact prune_after_succ horder ih (hs n)

/-- A converged analysis joins along all open arcs of visited sources. The join over those that control can take is the same
exactly if dead ends bring nothing else. Without the successors of dead ends all runs have the same outcome exactly if the same
blocks are visited and dead ends bring nothing else at any visit, and then the same is let out. -/
theorem stateAt?_eq_taken_iff (g : Graph) {cap : Nat} (hc : ((ofGraph g).run cap).converged = true) :
    (∀ b ∈ g.reachable,
      ((ofGraph g).run cap).stateAt? b =
        some ((ofGraph g).joinAlong ((ofGraph g).carried ((ofGraph g).run cap)) (g.incoming b) b) ∧
      (((ofGraph g).run cap).stateAt? b =
          some ((ofGraph g).joinAlong ((ofGraph g).carried ((ofGraph g).run cap)) ((g.incoming b).filter g.isTaken) b) ↔
        DeadEndsSilent g ((ofGraph g).carried ((ofGraph g).run cap)) b)) ∧
    ((∀ n, (ofGraph g.prune).run n = (ofGraph g).run n) ↔ g.prune.reachable = g.reachable ∧ ∀ n, SilentInSweep g n) ∧
    ((∀ n, (ofGraph g.prune).run n = (ofGraph g).run n) →
      (ofGraph g.prune).leaks ((ofGraph g.prune).run cap) = (ofGraph g).leaks ((ofGraph g).run cap)) := by
  refine ⟨fun b hb => ?_, prune_run_iff g, fun h => ?_⟩
  · have hat := (stateAt?_of_converged (ofGraph_covers g) hc).1 b hb
    refine ⟨hat, ?_⟩
    rw [← joinAlong_taken_iff, hat, Option.some.injEq]
    exact eq_comm
  · rw [h cap, prune_leaks]

/-- A block lists a successor behind its `break`, and the address of an array flows along this dead end to a `return`. If it is
taken early, it gets there from the entry as well. -/
def breakOut (early : Bool) : Graph where
  function :=
    let array : CType := .array (.char .char) (some 8)
    let pointer : CType := .pointer (.char .char)
    let x : Expr := .var ⟨array, .zero⟩ 0
    let p : Expr := .var ⟨pointer, .zero⟩ 1
    { (default : Function) with
      returnType := pointer
      vars := [⟨0, "x", array, .automatic, .localVar, false, .zero⟩, ⟨1, "p", pointer, .automatic, .localVar, false, .zero⟩]
      blocks :=
        [⟨0, if early then [⟨.assign p x, .zero⟩] else [], [1, 2]⟩,
         ⟨1, [⟨.assign p x, .zero⟩, ⟨.jump ⟨.break, some 3, none, none⟩, .zero⟩], [2]⟩,
         ⟨2, [⟨.jump ⟨.return, none, none, some p⟩, .zero⟩], []⟩,
         ⟨3, [], []⟩] }
  faultless := by cases early <;> rfl

/-- A dead end that brings nothing new. -/
theorem deadEndsSilent_breakOut :
    ((ofGraph (breakOut true)).run 10).converged = true ∧ (breakOut true).liveness.fallsThrough 1 = false ∧
      DeadEndsSilent (breakOut true) ((ofGraph (breakOut true)).carried ((ofGraph (breakOut true)).run 10)) 2 := by
  have hc : ((ofGraph (breakOut true)).run 10).converged = true := by decide +kernel
  have hmem : 2 ∈ (breakOut true).reachable := by decide +kernel
  refine ⟨hc, by decide +kernel, (((stateAt?_eq_taken_iff (breakOut true) hc).1 2 hmem).2).1 ?_⟩
  decide +kernel

/-- A dead end that brings the address of an array to a `return`, and with it a leak. -/
theorem deadEnd_leaks_breakOut :
    ((ofGraph (breakOut false)).run 10).converged = true ∧ (breakOut false).liveness.fallsThrough 1 = false ∧
      ((ofGraph (breakOut false)).run 10).stateAt? 2 ≠
        some ((ofGraph (breakOut false)).joinAlong ((ofGraph (breakOut false)).carried ((ofGraph (breakOut false)).run 10))
          (((breakOut false).incoming 2).filter (breakOut false).isTaken) 2) ∧
      (ofGraph (breakOut false)).leaks ((ofGraph (breakOut false)).run 10) ≠
        (ofGraph (breakOut false).prune).leaks ((ofGraph (breakOut false).prune).run 10) := by
  decide +kernel

end Dataflow

end FlowLint.Escape
