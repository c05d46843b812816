import FlowLint.Proofs.Flow.DeadLinks
import FlowLint.Proofs.Flow.Rescan

/-!
# The cause of a dead region

Control that comes to a statement goes on to the next one unless the statement is a jump. So what stands in front of a longest run of
dead statements is a live jump (`isLiveJump_of_dead_next`), and the search for the nearest live jump in front of a run ends at once
(`precedingJump_of_isLiveJump`). The segments of a region come in order, hence its cause is the jump in front of the first one of
them that does not start its block (`cause_in_front`).
-/

namespace FlowLint.Flow

/-! ## The first of a list -/

/-- A search through a list in order finds what the first element gives that gives anything. -/
theorem findSome?_eq_some_iff_first {α β : Type} {before : α → α → Prop} (hasymm : ∀ a b, before a b → ¬before b a)
    {f : α → Option β} {y : β} {l : List α} (hl : l.Pairwise before) :
    l.findSome? f = some y ↔ ∃ a ∈ l, f a = some y ∧ ∀ x ∈ l, f x ≠ none → x = a ∨ before a x := by
  constructor
  · intro h
    obtain ⟨front, a, rest, rfl, ha, hfront⟩ := List.findSome?_eq_some_iff.1 h
    refine ⟨a, by simp, ha, fun x hx hfound => ?_⟩
    rcases List.mem_append.1 hx with hx | hx
    · exact absurd (hfront x hx) hfound
    · refine (List.mem_cons.1 hx).imp_right fun hx => ?_
      exact (List.pairwise_cons.1 (List.pairwise_append.1 hl).2.1).1 x hx
  · rintro ⟨a, ha, hfa, hfirst⟩
    obtain ⟨front, rest, rfl⟩ := List.append_of_mem ha
    have hfront : ∀ x ∈ front, f x = none := by
      intro x hx
      by_contra hfound
      have hbefore : before x a := (List.pairwise_append.1 hl).2.2 x hx a List.mem_cons_self
      rcases hfirst x (List.mem_append_left _ hx) hfound with rfl | h
      · exact hasymm x x hbefore hbefore
      · exact hasymm x a hbefore h
    exact List.findSome?_eq_some_iff.2 ⟨front, a, rest, rfl, hfa, hfront⟩

/-! ## In front of a segment -/

variable {g : Graph} {l : Liveness} {p q : Point} {b i : Nat} {s t : Segment} {r : DeadRegion}

/-- A live jump is live, and it is a jump. -/
theorem Liveness.isLiveJump_eq_true_iff :
    l.isLiveJump g p = true ↔ l.isLive p = true ∧ ∃ x j, g.statement? p = some x ∧ x.asJump = some j := by
  unfold isLiveJump
  rw [Bool.and_eq_true, Option.isSome_iff_exists]
  refine and_congr_right fun _ => ⟨fun ⟨j, hj⟩ => ?_, fun ⟨x, j, hx, hj⟩ => ⟨j, Option.bind_eq_some_iff.2 ⟨x, hx, hj⟩⟩⟩
  obtain ⟨x, hx, hj⟩ := Option.bind_eq_some_iff.1 hj
  exact ⟨x, j, hx, hj⟩

/-- The nearest live jump is the statement right in front, if that is one. -/
theorem Liveness.precedingJump_of_isLiveJump (h : l.isLiveJump g ⟨b, i⟩ = true) :
    l.precedingJump g ⟨b, i + 1⟩ = some ⟨b, i⟩ := by
  unfold precedingJump
  rw [List.range_succ, List.reverse_append, List.reverse_singleton, List.singleton_append, List.map_cons,
    List.find?_cons_of_pos h]

/-- Control is lost between a live statement and a dead one only at a jump. -/
theorem Graph.isLiveJump_of_dead_next {x : Statement} (hx : g.statement? ⟨b, i + 1⟩ = some x)
    (hlive : g.liveness.isLive ⟨b, i⟩ = true) (hdead : g.liveness.isLive ⟨b, i + 1⟩ = false) :
    g.liveness.isLiveJump g ⟨b, i⟩ = true := by
  have hi : i < (g.statements b).length := Nat.lt_of_succ_lt (index_lt hx)
  have hfront : g.statement? ⟨b, i⟩ = some (g.statements b)[i] := List.getElem?_eq_getElem hi
  cases hjump : (g.statements b)[i].asJump with
  | some j => exact Liveness.isLiveJump_eq_true_iff.2 ⟨hlive, _, j, hfront, hjump⟩
  | none =>
    have hnext : g.liveness.isLive ⟨b, i + 1⟩ = true :=
      (isLive_iff_comesTo hx).2 (.inl (.inr ⟨i, _, rfl, hlive, hfront, hjump⟩))
    rw [hdead] at hnext
    cases hnext

/-- A segment that does not start its block has a live jump right in front of it. -/
theorem Graph.isLiveJump_front (hs : g.deadFlow.IsSegment s) (hi : i + 1 = s.start) :
    g.liveness.isLiveJump g ⟨s.block, i⟩ = true := by
  obtain ⟨b, start, stop⟩ := s
  subst hi
  cases hs with
  | run hr =>
    have hlt : i + 1 < (g.statements b).length := Nat.lt_of_lt_of_le hr.lt hr.le
    have hx : g.statement? ⟨b, i + 1⟩ = some (g.statements b)[i + 1] := List.getElem?_eq_getElem hlt
    exact isLiveJump_of_dead_next hx (hr.front i rfl) (hr.dead (i + 1) (Nat.le_refl _) hr.lt)

namespace DeadFlow

/-- One segment comes before another one: it is in an earlier block, or earlier in the same block. -/
def Before (s t : Segment) : Prop := s.block < t.block ∨ (s.block = t.block ∧ s.start < t.start)

theorem Before.asymm (s t : Segment) (h : Before s t) : ¬Before t s := by
  rintro (h' | ⟨h', hlt⟩) <;> rcases h with h | ⟨h, hlt'⟩ <;> omega

theorem Before.ne (h : Before s t) : s ≠ t := by
  rintro rfl
  exact asymm s s h h

/-- The segments of a graph are found in order. -/
theorem segments_ascending (d : DeadFlow) : d.segments.Pairwise Before := by
  unfold segments
  rw [List.pairwise_flatMap]
  constructor
  · intro b _
    unfold segmentsOf
    dsimp only
    split
    · split
      · exact .nil
      · exact List.pairwise_singleton _ _
    · rw [List.pairwise_map]
      refine (deadRuns_separated _).imp_of_mem fun {r r'} hr _ h => .inr ⟨rfl, ?_⟩
      exact Nat.lt_trans (deadRuns_bounds r hr).2 h
  · refine List.pairwise_lt_range.imp_of_mem fun {b c} hb hc hbc s hs t ht => .inl ?_
    rw [((mem_segmentsOf_iff (List.mem_range.1 hb)).1 hs).2, ((mem_segmentsOf_iff (List.mem_range.1 hc)).1 ht).2]
    exact hbc

/-! ## The segments of a region -/

/-- A segment belongs to a region: a chain of links joins it to the segment of a statement of the region. -/
def Belongs (d : DeadFlow) (r : DeadRegion) (s : Segment) : Prop :=
  ∃ p ∈ r.statements, ∃ t, d.IsSegment t ∧ t.Holds p ∧ Relation.ReflTransGen d.Joined t s

variable {d : DeadFlow} {members : List Segment}

/-- No segment is in two components. -/
theorem component_unique {members' : List Segment} (hm : members ∈ d.components) (hm' : members' ∈ d.components)
    (hs : s ∈ members) (hs' : s ∈ members') : members = members' := by
  have hnodup : d.components.flatten.Nodup :=
    d.components_flatten_perm.nodup_iff.2 (d.segments_ascending.imp Before.ne)
  by_contra hne
  have hsymm : Std.Symm fun l l' : List Segment => l.Disjoint l' := ⟨fun _ _ => List.disjoint_symm⟩
  exact (List.nodup_flatten.1 hnodup).2.forall hm hm' hne hs hs'

/-- The segments of a component are those that belong to its region. -/
theorem mem_iff_belongs (hm : members ∈ d.components) (hne : (d.regionOf members).statements ≠ []) :
    s ∈ members ↔ d.Belongs (d.regionOf members) s := by
  have hseg : ∀ x ∈ members, d.IsSegment x := fun x hx => mem_segments_iff.1 ((d.sublist_of_mem_components hm).subset hx)
  have hholds : ∀ p ∈ (d.regionOf members).statements, ∃ t ∈ members, t.Holds p := by
    intro p hp
    obtain ⟨t, ht, hpt⟩ := List.mem_flatMap.1 (List.mem_filter.1 hp).1
    exact ⟨t, ht, mem_points_iff.1 hpt⟩
  constructor
  · intro hs
    obtain ⟨p, hp⟩ := List.exists_mem_of_ne_nil _ hne
    obtain ⟨t, ht, hpt⟩ := hholds p hp
    exact ⟨p, hp, t, hseg t ht, hpt, (exists_component_iff (hseg t ht)).1 ⟨members, hm, ht, hs⟩⟩
  · rintro ⟨p, hp, t, ht, hpt, hchain⟩
    obtain ⟨u, hu, hpu⟩ := hholds p hp
    obtain rfl : t = u := ht.unique (hseg u hu) (hpt.1.symm.trans hpu.1) (.inr (.inr ⟨p, hpt, hpu⟩))
    obtain ⟨members', hm', ht', hs⟩ := (exists_component_iff ht).2 hchain
    exact component_unique hm hm' hu ht' ▸ hs

/-- What belongs to a region is a segment. -/
theorem Belongs.isSegment (h : d.Belongs r s) : d.IsSegment s := by
  obtain ⟨p, -, t, ht, -, hchain⟩ := h
  cases hchain with
  | refl => exact ht
  | tail _ hlast => exact hlast.2.1

/-- Regions are those of the components that carry code. -/
theorem exists_component_of_mem_regions (hr : r ∈ d.regions) :
    ∃ members ∈ d.components, d.regionOf members = r ∧ ∀ s, s ∈ members ↔ d.Belongs r s := by
  obtain ⟨hr, hne⟩ := List.mem_filter.1 hr
  obtain ⟨members, hm, rfl⟩ := List.mem_map.1 hr
  exact ⟨members, hm, rfl, fun s => mem_iff_belongs hm (by simpa using hne)⟩

end DeadFlow

/-! ## Causes -/

/-- What a segment gives for the cause of its region is the place right in front of it. -/
theorem Graph.jump_front_eq_some_iff (hs : g.deadFlow.IsSegment s) :
    (if 0 < s.start then g.liveness.precedingJump g ⟨s.block, s.start⟩ else none) = some q ↔
      q.block = s.block ∧ q.index + 1 = s.start := by
  cases hstart : s.start with
  | zero => simp
  | succ i =>
    rw [if_pos (Nat.succ_pos i), Liveness.precedingJump_of_isLiveJump (isLiveJump_front hs hstart.symm), Option.some.injEq]
    constructor
    · rintro rfl
      exact ⟨rfl, rfl⟩
    · rintro ⟨hb, hi⟩
      rw [← hb, ← Nat.succ.inj hi]

/-- A segment that starts its block gives none. -/
theorem Graph.jump_front_eq_none_iff (hs : g.deadFlow.IsSegment s) :
    (if 0 < s.start then g.liveness.precedingJump g ⟨s.block, s.start⟩ else none) = none ↔ s.start = 0 := by
  rw [Option.eq_none_iff_forall_ne_some]
  simp only [ne_eq, jump_front_eq_some_iff hs, not_and]
  constructor
  · intro h
    by_contra hne
    exact h ⟨s.block, s.start - 1⟩ rfl (Nat.sub_add_cancel (Nat.pos_of_ne_zero hne))
  · rintro h0 q - hi
    rw [h0] at hi
    cases hi

/-- The cause of a region is the place in front of the first of its segments that does not start its block. -/
theorem Graph.cause_eq_some_iff (hr : r ∈ g.deadRegions g.liveness) : r.cause = some q ↔
    ∃ s, g.deadFlow.Belongs r s ∧ (q.block = s.block ∧ q.index + 1 = s.start) ∧
      ∀ t, g.deadFlow.Belongs r t → 0 < t.start → t = s ∨ DeadFlow.Before s t := by
  obtain ⟨members, hm, rfl, hmem⟩ := DeadFlow.exists_component_of_mem_regions (d := g.deadFlow) hr
  have hascending : members.Pairwise DeadFlow.Before :=
    g.deadFlow.segments_ascending.sublist (g.deadFlow.sublist_of_mem_components hm)
  refine (findSome?_eq_some_iff_first DeadFlow.Before.asymm hascending).trans (exists_congr fun s => ?_)
  rw [hmem]
  refine and_congr_right fun hs => and_congr (jump_front_eq_some_iff hs.isSegment) (forall_congr' fun t => ?_)
  rw [hmem]
  refine forall_congr' fun ht => imp_congr_left ((not_congr (jump_front_eq_none_iff ht.isSegment)).trans ?_)
  exact Nat.pos_iff_ne_zero.symm

/-- A region has no cause if all its segments start their blocks. -/
theorem Graph.cause_eq_none_iff (hr : r ∈ g.deadRegions g.liveness) :
    r.cause = none ↔ ∀ s, g.deadFlow.Belongs r s → s.start = 0 := by
  obtain ⟨members, -, rfl, hmem⟩ := DeadFlow.exists_component_of_mem_regions (d := g.deadFlow) hr
  refine List.findSome?_eq_none_iff.trans (forall_congr' fun s => ?_)
  rw [hmem]
  exact forall_congr' fun hs => jump_front_eq_none_iff hs.isSegment

/-- A region has no cause exactly if all its segments start their blocks, as those of empty blocks do. Otherwise its cause is the
statement right in front of the first of its segments that does not, and that statement is a live jump. -/
theorem Graph.cause_in_front (g : Graph) :
    (∀ r ∈ g.deadRegions g.liveness, r.cause = none ↔ ∀ s, g.deadFlow.Belongs r s → s.start = 0) ∧
    (∀ r ∈ g.deadRegions g.liveness, ∀ q, r.cause = some q ↔
      ∃ s, g.deadFlow.Belongs r s ∧ (q.block = s.block ∧ q.index + 1 = s.start) ∧
        ∀ t, g.deadFlow.Belongs r t → 0 < t.start → t = s ∨ DeadFlow.Before s t) ∧
    ∀ r ∈ g.deadRegions g.liveness, ∀ q, r.cause = some q →
      g.liveness.isLive q = true ∧ ∃ x j, g.statement? q = some x ∧ x.asJump = some j := by
  refine ⟨fun r hr => cause_eq_none_iff hr, fun r hr q => cause_eq_some_iff hr, fun r hr q hq => ?_⟩
  obtain ⟨s, hs, ⟨hb, hi⟩, -⟩ := (cause_eq_some_iff hr).1 hq
  have hjump := isLiveJump_front hs.isSegment hi
  rw [← hb] at hjump
  exact Liveness.isLiveJump_eq_true_iff.1 hjump

/-- A `return` in front of a `goto` to an earlier block: the first segment of the region starts that block, the second one has the
`return` in front of it. -/
example :
    let g : Graph := ⟨{ (default : Function) with
      blocks :=
        [⟨0, [⟨.other, .zero⟩], [2]⟩,
         ⟨1, [⟨.other, .zero⟩], []⟩,
         ⟨2, [⟨.jump ⟨.return, none, none, none⟩, .zero⟩, ⟨.jump ⟨.goto, some 1, none, none⟩, .zero⟩], []⟩] }, rfl⟩
    g.deadRegions g.liveness = [⟨[⟨1, 0⟩, ⟨2, 1⟩], some ⟨2, 0⟩⟩] := by
  decide +kernel

end FlowLint.Flow
