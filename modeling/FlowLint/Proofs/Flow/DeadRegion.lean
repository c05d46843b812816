import Mathlib.Data.List.Flatten
import Mathlib.Data.List.Nodup
import FlowLint.Flow.DeadRegion
import FlowLint.Proofs.Flow.Closure

/-!
# Regions hold the dead code, each statement once

The places of the segments are those of the dead statements, in order (`flatMap_points_segments`). Segments are linked both ways,
so that connected components have all segments, each once (`components_flatten_perm`), and in order. So regions are sorted, and
together they have each dead statement that carries code exactly once (`deadRegions_partition`).
-/

namespace FlowLint.Flow

/-- One place comes before another one: it is in an earlier block, or earlier in the same block. -/
def Point.Before (p q : Point) : Prop := p.block < q.block ∨ (p.block = q.block ∧ p.index < q.index)

theorem Point.Before.ne {p q : Point} (h : p.Before q) : p ≠ q := by
  rintro rfl
  rcases h with h | ⟨-, h⟩ <;> omega

/-- The places of a graph are in order. -/
theorem Graph.points_ascending (g : Graph) : g.points.Pairwise Point.Before := by
  unfold Graph.points
  rw [List.pairwise_flatMap]
  constructor
  · intro b _
    rw [List.pairwise_map]
    exact List.pairwise_lt_range.imp fun h => .inr ⟨rfl, h⟩
  · refine List.pairwise_lt_range.imp fun {b c} hbc p hp q hq => ?_
    obtain ⟨i, -, rfl⟩ := List.mem_map.1 hp
    obtain ⟨j, -, rfl⟩ := List.mem_map.1 hq
    exact .inl hbc

/-- Dead code is dead, and carries code. -/
theorem Liveness.mem_deadCode {g : Graph} {l : Liveness} {p : Point} :
    p ∈ l.deadCode g ↔ l.isLive p = false ∧ ∃ s, g.statement? p = some s ∧ s.isCode = true := by
  unfold deadCode
  rw [List.mem_filter, Graph.mem_points, Bool.and_eq_true, Bool.not_eq_true']
  constructor
  · rintro ⟨⟨s, hs⟩, hl, hc⟩
    exact ⟨hl, s, hs, by simpa [hs] using hc⟩
  · rintro ⟨hl, s, hs, hc⟩
    exact ⟨⟨s, hs⟩, hl, by simpa [hs] using hc⟩

/-! ## Segments -/

/-- Runs are not empty, and they start from the index where the list starts on. -/
theorem deadRuns_bounds {k : Nat} {l : List Bool} : ∀ r ∈ deadRuns k l, k ≤ r.1 ∧ r.1 < r.2 := by
  induction l generalizing k with
  | nil => simp [deadRuns]
  | cons b l ih =>
    intro r hr
    cases b with
    | true =>
      have := ih r (by simpa [deadRuns] using hr)
      omega
    | false =>
      simp only [deadRuns] at hr
      split at hr
      · rename_i start stop runs heq
        have hrest : ∀ r ∈ runs, k + 1 ≤ r.1 ∧ r.1 < r.2 := fun r hr => ih r (heq ▸ List.mem_cons_of_mem _ hr)
        have hfirst := ih (start, stop) (heq ▸ List.mem_cons_self)
        split at hr
        · rcases List.mem_cons.1 hr with rfl | hr
          · dsimp only at hfirst ⊢
            omega
          · have := hrest r hr
            omega
        · rcases List.mem_cons.1 hr with rfl | hr
          · dsimp only
            omega
          · have := ih r (heq ▸ hr)
            omega
      · rw [List.mem_singleton] at hr
        subst hr
        dsimp only
        omega

/-- The runs have the indices at which the list is false, in order. -/
theorem flatMap_deadRuns (live : Nat → Bool) (k n : Nat) :
    (deadRuns k ((List.range' k n).map live)).flatMap (fun r => List.range' r.1 (r.2 - r.1)) =
      (List.range' k n).filter fun i => !live i := by
  induction n generalizing k with
  | zero => simp [deadRuns]
  | succ n ih =>
    have hrest := ih (k + 1)
    have hbounds := deadRuns_bounds (k := k + 1) (l := (List.range' (k + 1) n).map live)
    rw [List.range'_succ, List.map_cons, List.filter_cons, ← hrest]
    cases hk : live k with
    | true => simp [deadRuns]
    | false =>
      simp only [deadRuns]
      generalize deadRuns (k + 1) ((List.range' (k + 1) n).map live) = runs at hbounds ⊢
      cases runs with
      | nil => simp
      | cons r runs =>
        obtain ⟨start, stop⟩ := r
        have hfirst := hbounds (start, stop) List.mem_cons_self
        dsimp only at hfirst ⊢
        split
        · -- the run grows by its first index
          have hlen : stop - k = stop - start + 1 := by omega
          have hnext : k + 1 = start := by omega
          simp [hlen, List.range'_succ, hnext]
        · simp

namespace DeadFlow

/-- The places of a segment are those of its indices. -/
theorem points_eq (s : Segment) : points s = (List.range' s.start (s.stop - s.start)).map fun i => ⟨s.block, i⟩ := by
  simp [points, List.range'_eq_map_range, Function.comp_def]

section

variable (d : DeadFlow)

/-- The places of the segments of a block are those of its dead statements, in order. -/
theorem flatMap_points_segmentsOf (b : Nat) :
    (d.segmentsOf b).flatMap points =
      ((List.range (d.graph.statements b).length).map fun i => ⟨b, i⟩).filter fun p => !d.live.isLive p := by
  unfold segmentsOf
  dsimp only
  split
  · rename_i hzero
    rw [hzero]
    split <;> simp [points]
  · have hruns := flatMap_deadRuns (fun i => d.live.isLive ⟨b, i⟩) 0 (d.graph.statements b).length
    rw [← List.range_eq_range'] at hruns
    rw [List.flatMap_map, List.filter_map]
    have hpoints : (fun r : Nat × Nat => points ⟨b, r.1, r.2⟩) =
        fun r => (List.range' r.1 (r.2 - r.1)).map fun i => ⟨b, i⟩ := by
      funext r
      exact points_eq _
    rw [hpoints, ← List.map_flatMap, hruns]
    rfl

/-- The places of all segments are those of the dead statements, in order. -/
theorem flatMap_points_segments : d.segments.flatMap points = d.graph.points.filter fun p => !d.live.isLive p := by
  unfold segments Graph.points
  rw [List.flatMap_assoc, List.filter_flatMap]
  exact congrArg (fun f => List.flatMap f _) (funext d.flatMap_points_segmentsOf)

end

/-! ## Components -/

/-- A row of a table names another one. -/
def Names (table : List (List Nat)) (i j : Nat) : Prop := j ∈ (table[i]?).getD []

/-- What a table names are rows of it, and rows name each other. -/
structure Linked (table : List (List Nat)) : Prop where
  lt : ∀ i j, Names table i j → j < table.length
  symm : ∀ i j, Names table i j → Names table j i

namespace Linked

variable {table : List (List Nat)} {i j : Nat}

/-- A component has what steps lead to. -/
theorem mem_component_iff (h : Linked table) (hi : i < table.length) :
    j ∈ component table i ↔ Relation.ReflTransGen (Names table) i j :=
  mem_reached_iff h.lt hi

theorem lt_of_mem_component (hj : j ∈ component table i) : j < table.length := by
  unfold component reached at hj
  exact List.mem_range.1 (List.mem_of_mem_filter hj)

/-- A component is that of each of its members. -/
theorem component_congr (h : Linked table) (hi : i < table.length) (hj : j ∈ component table i) :
    component table j = component table i := by
  have hsymm : Std.Symm (Names table) := ⟨h.symm⟩
  have hback : Std.Symm (Relation.ReflTransGen (Names table)) := inferInstance
  have hlt := lt_of_mem_component hj
  have hij := (h.mem_component_iff hi).1 hj
  have hmem : ∀ x, x ∈ component table j ↔ x ∈ component table i := by
    intro x
    rw [h.mem_component_iff hi, h.mem_component_iff hlt]
    exact ⟨fun hx => hij.trans hx, fun hx => (hback.symm _ _ hij).trans hx⟩
  unfold component reached at hmem ⊢
  refine List.filter_congr fun x hx => ?_
  have := hmem x
  simp only [List.mem_filter, hx, true_and] at this
  exact Bool.eq_iff_iff.2 this

theorem self_mem_component (h : Linked table) (hi : i < table.length) : i ∈ component table i :=
  (h.mem_component_iff hi).2 .refl

end Linked

/-- The components of a table, each once, in the order of their first members. -/
def groups (table : List (List Nat)) : List (List Nat) :=
  (List.range table.length).filterMap fun i => if (component table i).head? = some i then some (component table i) else none

theorem mem_groups {table : List (List Nat)} {members : List Nat} :
    members ∈ groups table ↔ ∃ i < table.length, (component table i).head? = some i ∧ component table i = members := by
  unfold groups
  simp only [List.mem_filterMap, List.mem_range, Option.ite_none_right_eq_some, Option.some.injEq]

/-- Members of a component are in ascending order. -/
theorem sublist_of_mem_groups {table : List (List Nat)} {members : List Nat} (h : members ∈ groups table) :
    members.Sublist (List.range table.length) := by
  obtain ⟨i, -, -, rfl⟩ := mem_groups.1 h
  exact List.filter_sublist

/-- Each row is in one component, and in no other one. -/
theorem groups_flatten_perm {table : List (List Nat)} (h : Linked table) :
    (groups table).flatten.Perm (List.range table.length) := by
  have hnodup : (groups table).flatten.Nodup := by
    rw [List.nodup_flatten]
    refine ⟨fun l hl => (sublist_of_mem_groups hl).nodup List.nodup_range, ?_⟩
    unfold groups
    rw [List.pairwise_filterMap]
    refine (List.nodup_range.imp_of_mem fun {i j} hi hj hne => ?_)
    simp only [Option.ite_none_right_eq_some, Option.some.injEq]
    rintro _ ⟨hhead, rfl⟩ _ ⟨hhead', rfl⟩ x hx hx'
    -- a common member would make the components, and with them their first members, the same
    have heq := (h.component_congr (List.mem_range.1 hi) hx).symm.trans (h.component_congr (List.mem_range.1 hj) hx')
    rw [heq, hhead', Option.some.injEq] at hhead
    exact hne hhead.symm
  refine (List.perm_ext_iff_of_nodup hnodup List.nodup_range).2 fun x => ?_
  rw [List.mem_flatten, List.mem_range]
  constructor
  · rintro ⟨members, hm, hx⟩
    exact List.mem_range.1 ((sublist_of_mem_groups hm).subset hx)
  · intro hx
    have hself := h.self_mem_component hx
    obtain ⟨i, hi⟩ : ∃ i, (component table x).head? = some i := by
      cases hc : component table x with
      | nil => simp [hc] at hself
      | cons i _ => exact ⟨i, rfl⟩
    have hmem := List.mem_of_mem_head? hi
    have heq := h.component_congr hx hmem
    exact ⟨component table x, mem_groups.2 ⟨i, Linked.lt_of_mem_component hmem, by rw [heq, hi], heq⟩, hself⟩

/-- The elements of a list, looked up in order. -/
theorem filterMap_getElem?_range {α : Type} (l : List α) : (List.range l.length).filterMap (l[·]?) = l := by
  induction l with
  | nil => rfl
  | cons a l ih =>
    rw [List.length_cons, List.range_succ_eq_map, List.filterMap_cons, List.filterMap_map]
    simpa [Function.comp_def] using ih

variable (d : DeadFlow)

theorem length_neighbours (segments : List Segment) : (d.neighbours segments).length = segments.length := by
  simp [neighbours]

/-- Segments are linked if control would pass from one to the other, either way. -/
theorem mem_neighbours {segments : List Segment} {i j : Nat} :
    Names (d.neighbours segments) i j ↔
      ∃ s t, segments[i]? = some s ∧ segments[j]? = some t ∧ (t ∈ d.linksFrom s ∨ s ∈ d.linksFrom t) := by
  unfold Names neighbours
  simp only [List.getElem?_map]
  cases hs : segments[i]? with
  | none => simp
  | some s =>
    cases ht : segments[j]? with
    | none => simp [ht]
    | some t =>
      have hj : j < segments.length := (List.getElem?_eq_some_iff.1 ht).1
      simp only [Option.map_some, Option.getD_some, List.mem_filter, List.mem_range, ht, hj, true_and, Bool.or_eq_true,
        List.contains_iff_mem, Option.some.injEq]
      constructor
      · intro hlink
        exact ⟨s, t, rfl, rfl, hlink⟩
      · rintro ⟨_, _, rfl, rfl, hlink⟩
        exact hlink

theorem linked_neighbours (segments : List Segment) : Linked (d.neighbours segments) where
  lt i j hj := by
    obtain ⟨-, t, -, ht, -⟩ := d.mem_neighbours.1 hj
    rw [length_neighbours]
    exact (List.getElem?_eq_some_iff.1 ht).1
  symm i j hj := by
    obtain ⟨s, t, hs, ht, hlink⟩ := d.mem_neighbours.1 hj
    exact d.mem_neighbours.2 ⟨t, s, ht, hs, hlink.symm⟩

theorem components_eq :
    d.components = (groups (d.neighbours d.segments)).map (List.filterMap (d.segments[·]?)) := by
  unfold components groups
  rw [List.map_filterMap, length_neighbours]
  refine List.filterMap_congr fun i _ => ?_
  dsimp only
  split <;> rfl

/-- The components have all segments, each once. -/
theorem components_flatten_perm : d.components.flatten.Perm d.segments := by
  rw [components_eq, ← List.filterMap_flatten]
  have h := (groups_flatten_perm (d.linked_neighbours d.segments)).filterMap (d.segments[·]?)
  rwa [length_neighbours, filterMap_getElem?_range] at h

/-- The segments of a component are in order. -/
theorem sublist_of_mem_components {members : List Segment} (h : members ∈ d.components) : members.Sublist d.segments := by
  rw [components_eq] at h
  obtain ⟨group, hgroup, rfl⟩ := List.mem_map.1 h
  have hsub := (sublist_of_mem_groups hgroup).filterMap (d.segments[·]?)
  rwa [length_neighbours, filterMap_getElem?_range] at hsub

/-! ## Regions -/

/-- Whether the statement at a place carries code. -/
def isCodeAt (g : Graph) (p : Point) : Bool := ((g.statement? p).map Statement.isCode).getD false

/-- Code is neither a label nor an empty statement. -/
theorem isCodeAt_iff {g : Graph} {p : Point} :
    isCodeAt g p = true ↔
      ∃ s, g.statement? p = some s ∧ s.action ≠ .empty ∧ ∀ name kind, s.action ≠ .label name kind := by
  unfold isCodeAt
  cases g.statement? p with
  | none => simp
  | some s =>
    unfold Statement.isCode
    cases hs : s.action <;> simp [hs]

/-- The dead statements that carry code, in order. -/
def code : List Point := (d.segments.flatMap points).filter (isCodeAt d.graph)

theorem code_eq : d.code = d.live.deadCode d.graph := by
  unfold code Liveness.deadCode
  rw [flatMap_points_segments, List.filter_filter]
  exact List.filter_congr fun p _ => Bool.and_comm _ _

/-- The statements of a region of segments in order are in order. -/
theorem regionOf_ascending {members : List Segment} (h : members.Sublist d.segments) :
    (d.regionOf members).statements.Pairwise Point.Before := by
  have hsub : (members.flatMap points).Sublist d.graph.points :=
    (h.flatMap points).trans (d.flatMap_points_segments ▸ List.filter_sublist)
  exact d.graph.points_ascending.sublist (List.filter_sublist.trans hsub)

/-- Together the regions have the dead statements that carry code, each once. -/
theorem flatMap_regions_perm : (d.regions.flatMap DeadRegion.statements).Perm d.code := by
  have hfilter : d.regions.flatMap DeadRegion.statements = (d.components.map d.regionOf).flatMap DeadRegion.statements := by
    unfold regions
    rw [List.flatMap_def, List.flatMap_def, ← List.flatten_filter_not_isEmpty (L := List.map _ (d.components.map d.regionOf)),
      List.filter_map (l := d.components.map d.regionOf)]
    rfl
  have hflat : (d.components.map d.regionOf).flatMap DeadRegion.statements =
      (d.components.flatten.flatMap points).filter (isCodeAt d.graph) := by
    rw [List.flatMap_map, ← List.flatMap_id, List.flatMap_assoc, List.filter_flatMap]
    rfl
  rw [hfilter, hflat]
  exact (d.components_flatten_perm.flatMap_right points).filter _

end DeadFlow

/-- Regions are not empty and sorted, no two of them have a statement in common, and together they have the dead statements that
carry code, each once: no live ones, labels or empty ones. -/
theorem Graph.deadRegions_partition (g : Graph) :
    (∀ r ∈ g.deadRegions g.liveness, r.statements ≠ [] ∧ r.statements.Pairwise Point.Before) ∧
    (g.deadRegions g.liveness).Pairwise (fun r r' => ∀ p ∈ r.statements, p ∉ r'.statements) ∧
    ((g.deadRegions g.liveness).flatMap DeadRegion.statements).Perm (g.liveness.deadCode g) ∧
    ∀ r ∈ g.deadRegions g.liveness, ∀ p ∈ r.statements, g.liveness.isLive p = false ∧
      ∃ s, g.statement? p = some s ∧ s.action ≠ .empty ∧ ∀ name kind, s.action ≠ .label name kind := by
  let d : DeadFlow := ⟨g, g.liveness⟩
  have hperm : ((g.deadRegions g.liveness).flatMap DeadRegion.statements).Perm (g.liveness.deadCode g) := by
    have h := d.flatMap_regions_perm
    rwa [d.code_eq] at h
  have hsorted : (g.liveness.deadCode g).Pairwise Point.Before := g.points_ascending.sublist List.filter_sublist
  have hnodup : ((g.deadRegions g.liveness).flatMap DeadRegion.statements).Nodup :=
    hperm.nodup_iff.2 (hsorted.imp Point.Before.ne)
  refine ⟨fun r hr => ?_, (List.nodup_flatMap.1 hnodup).2, hperm, fun r hr p hp => ?_⟩
  · obtain ⟨hr, hne⟩ := List.mem_filter.1 hr
    obtain ⟨members, hm, rfl⟩ := List.mem_map.1 hr
    exact ⟨by simpa using hne, d.regionOf_ascending (d.sublist_of_mem_components hm)⟩
  · have hdead : p ∈ g.liveness.deadCode g := hperm.mem_iff.1 (List.mem_flatMap.2 ⟨r, hr, hp⟩)
    obtain ⟨-, hp⟩ := List.mem_filter.1 hdead
    rw [Bool.and_eq_true, Bool.not_eq_true'] at hp
    exact ⟨hp.1, DeadFlow.isCodeAt_iff.1 hp.2⟩

end FlowLint.Flow
