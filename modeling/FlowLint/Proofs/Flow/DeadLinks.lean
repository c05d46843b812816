import Mathlib.Data.List.Pairwise
import FlowLint.Proofs.Flow.DeadRegion

/-!
# Regions are connected

What dead control would pass through belongs together. `IsSegment` says which runs of dead statements are longest ones, and `Link`
where control would pass from one of them to another one: behind the last statement of a block, and at a jump. Two dead statements
are in one region exactly if a chain of links, each passed one way or the other, leads from the segment of the first one to that of
the second one (`mem_region_iff_connected`).
-/

namespace FlowLint.Flow

/-! ## Runs -/

/-- A longest run of indices below `count` at which nothing is live, from `start` to before `stop`. -/
structure IsRun (live : Nat → Bool) (count start stop : Nat) : Prop where
  lt : start < stop
  le : stop ≤ count
  dead : ∀ i, start ≤ i → i < stop → live i = false
  front : ∀ i, i + 1 = start → live i = true
  behind : stop < count → live stop = true

section

variable {live : Nat → Bool} {count start stop start' stop' : Nat}

/-- There is no run in an empty list. -/
theorem IsRun.ne_nil {α : Type} {l : List α} (h : IsRun live l.length start stop) : l ≠ [] :=
  List.ne_nil_of_length_pos (Nat.lt_of_lt_of_le (Nat.zero_lt_of_lt h.lt) h.le)

/-- A longest run does not start within another one. -/
theorem IsRun.start_le (h : IsRun live count start stop) (h' : IsRun live count start' stop') (hlt : start' < stop) :
    start' ≤ start := by
  by_contra hle
  have hfront := h'.front (start' - 1) (by omega)
  rw [h.dead (start' - 1) (by omega) (by omega)] at hfront
  cases hfront

/-- A longest run does not stop within another one. -/
theorem IsRun.stop_le (h : IsRun live count start stop) (h' : IsRun live count start' stop') (hlt : start' < stop) :
    stop' ≤ stop := by
  by_contra hle
  have hstop : stop < stop' := Nat.lt_of_not_le hle
  have hbehind := h.behind (Nat.lt_of_lt_of_le hstop h'.le)
  rw [h'.dead stop (Nat.le_of_lt hlt) hstop] at hbehind
  cases hbehind

/-- Longest runs that meet are the same. -/
theorem IsRun.unique (h : IsRun live count start stop) (h' : IsRun live count start' stop') {i : Nat} (hi : start ≤ i ∧ i < stop)
    (hi' : start' ≤ i ∧ i < stop') : start = start' ∧ stop = stop' := by
  have hlt : start' < stop := by omega
  have hlt' : start < stop' := by omega
  exact ⟨Nat.le_antisymm (h'.start_le h hlt') (h.start_le h' hlt), Nat.le_antisymm (h'.stop_le h hlt') (h.stop_le h' hlt)⟩

/-- Between two runs something is live. -/
theorem deadRuns_separated {k : Nat} (l : List Bool) : (deadRuns k l).Pairwise fun r r' => r.2 < r'.1 := by
  induction l generalizing k with
  | nil => exact .nil
  | cons x l ih =>
    cases x with
    | true => exact ih
    | false =>
      have hrest := ih (k := k + 1)
      have hbounds := deadRuns_bounds (k := k + 1) (l := l)
      simp only [deadRuns]
      split
      · rename_i start stop runs heq
        rw [heq] at hrest hbounds
        obtain ⟨hfirst, hruns⟩ := List.pairwise_cons.1 hrest
        split
        · exact List.pairwise_cons.2 ⟨hfirst, hruns⟩
        · rename_i hne
          refine List.pairwise_cons.2 ⟨fun r hr => ?_, hrest⟩
          have hstart := hbounds (start, stop) List.mem_cons_self
          rcases List.mem_cons.1 hr with rfl | hr
          · dsimp only at hstart ⊢
            omega
          · have := hfirst r hr
            dsimp only at hstart this ⊢
            omega
      · exact List.pairwise_singleton _ _

/-- An index is in a run if nothing is live there. -/
theorem exists_mem_deadRuns_iff {i : Nat} :
    (∃ r ∈ deadRuns 0 ((List.range count).map live), r.1 ≤ i ∧ i < r.2) ↔ i < count ∧ live i = false := by
  have hruns := flatMap_deadRuns live 0 count
  rw [← List.range_eq_range'] at hruns
  have hmem : i ∈ (List.range count).filter (fun i => !live i) ↔ i < count ∧ live i = false := by
    rw [List.mem_filter, List.mem_range, Bool.not_eq_true']
  rw [← hmem, ← hruns, List.mem_flatMap]
  refine exists_congr fun r => and_congr_right fun _ => ?_
  rw [List.mem_range'_1]
  omega

/-- Different runs are apart. -/
theorem deadRuns_apart {k : Nat} {l : List Bool} {r r' : Nat × Nat} (hr : r ∈ deadRuns k l) (hr' : r' ∈ deadRuns k l)
    (hne : r ≠ r') : r.2 < r'.1 ∨ r'.2 < r.1 := by
  have hsymm : Std.Symm fun r r' : Nat × Nat => r.2 < r'.1 ∨ r'.2 < r.1 := ⟨fun _ _ h => h.symm⟩
  have hpairs : (deadRuns k l).Pairwise fun r r' => r.2 < r'.1 ∨ r'.2 < r.1 := (deadRuns_separated l).imp .inl
  exact hpairs.forall hr hr' hne

/-- Runs that are found are longest ones. -/
theorem isRun_of_mem_deadRuns {r : Nat × Nat} (hr : r ∈ deadRuns 0 ((List.range count).map live)) :
    IsRun live count r.1 r.2 := by
  have hlt : r.1 < r.2 := (deadRuns_bounds r hr).2
  have hin : ∀ i, r.1 ≤ i → i < r.2 → i < count ∧ live i = false := fun i h1 h2 => exists_mem_deadRuns_iff.1 ⟨r, hr, h1, h2⟩
  -- an index next to the run is in no other run
  have hnext : ∀ i, i + 1 = r.1 ∨ i = r.2 → i < count → live i = true := by
    intro i hi hcount
    by_contra hdead
    obtain ⟨r', hr', h1, h2⟩ := exists_mem_deadRuns_iff.2 ⟨hcount, by simpa using hdead⟩
    have hne : r ≠ r' := by
      rintro rfl
      omega
    have := deadRuns_apart hr hr' hne
    omega
  have hlast := (hin (r.2 - 1) (by omega) (by omega)).1
  exact ⟨hlt, by omega, fun i h1 h2 => (hin i h1 h2).2, fun i hi => hnext i (.inl hi) (by omega),
    fun hcount => hnext r.2 (.inr rfl) hcount⟩

/-- The longest runs are those that are found. -/
theorem mem_deadRuns_iff : (start, stop) ∈ deadRuns 0 ((List.range count).map live) ↔ IsRun live count start stop := by
  constructor
  · exact isRun_of_mem_deadRuns
  · intro h
    have hdead := h.dead start (Nat.le_refl _) h.lt
    obtain ⟨⟨a, b⟩, hr, hmeet⟩ := exists_mem_deadRuns_iff.2 ⟨Nat.lt_of_lt_of_le h.lt h.le, hdead⟩
    obtain ⟨rfl, rfl⟩ := (isRun_of_mem_deadRuns hr).unique h hmeet ⟨Nat.le_refl _, h.lt⟩
    exact hr

end

/-! ## Segments -/

/-- A segment has a place: the statement there is one of its run. -/
def Segment.Holds (s : Segment) (p : Point) : Prop := p.block = s.block ∧ s.start ≤ p.index ∧ p.index < s.stop

namespace DeadFlow

/-- A longest run of dead statements of a block, or a block without statements that is not entered. -/
inductive IsSegment (d : DeadFlow) : Segment → Prop where
  | run {s : Segment} :
      IsRun (fun i => d.live.isLive ⟨s.block, i⟩) (d.graph.statements s.block).length s.start s.stop → IsSegment d s
  | empty {b : Nat} :
      b < d.graph.size → d.graph.statements b = [] → d.live.isEntered b = false → IsSegment d ⟨b, 0, 0⟩

/-- Control would pass from a segment to the start of another one: from the end of its block to a successor, or from a jump in it
to where it goes. A block that is entered does not count, since control comes there anyway. -/
inductive Link (d : DeadFlow) (s t : Segment) : Prop where
  | behind :
      s.stop = (d.graph.statements s.block).length → d.live.fallsThrough s.block = false → t.block ∈ d.graph.successors s.block →
        d.live.isEntered t.block = false → t.start = 0 → Link d s t
  | jump {p : Point} :
      s.Holds p → d.graph.jumpTarget? p = some t.block → d.live.isEntered t.block = false → t.start = 0 → Link d s t

/-- A link joins two segments, whichever of them it leaves. -/
def Joined (d : DeadFlow) (s t : Segment) : Prop := d.IsSegment s ∧ d.IsSegment t ∧ (d.Link s t ∨ d.Link t s)

variable {d : DeadFlow} {s t : Segment} {p q : Point} {b : Nat}

theorem mem_points_iff : p ∈ points s ↔ s.Holds p := by
  rw [points_eq, List.mem_map]
  constructor
  · rintro ⟨i, hi, rfl⟩
    rw [List.mem_range'_1] at hi
    refine ⟨rfl, hi.1, ?_⟩
    dsimp only
    omega
  · rintro ⟨hb, h1, h2⟩
    exact ⟨p.index, List.mem_range'_1.2 ⟨h1, by omega⟩, by rw [← hb]⟩

/-- Segments of a block that start together, stop together or meet are the same. -/
theorem IsSegment.unique (h : d.IsSegment s) (h' : d.IsSegment t) (hb : s.block = t.block)
    (hmeet : s.start = t.start ∨ s.stop = t.stop ∨ ∃ p, s.Holds p ∧ t.Holds p) : s = t := by
  obtain ⟨b, start, stop⟩ := s
  obtain ⟨b', start', stop'⟩ := t
  dsimp only at hb
  subst hb
  cases h with
  | run hr =>
    dsimp only at hr
    cases h' with
    | run hr' =>
      dsimp only at hr' hmeet
      have hlt := hr.lt
      have hlt' := hr'.lt
      have hcommon : ∃ i, (start ≤ i ∧ i < stop) ∧ start' ≤ i ∧ i < stop' := by
        rcases hmeet with h | h | ⟨p, ⟨-, hp⟩, -, hp'⟩
        · exact ⟨start, by omega, by omega⟩
        · exact ⟨stop - 1, by omega, by omega⟩
        · exact ⟨p.index, hp, hp'⟩
      obtain ⟨i, hi, hi'⟩ := hcommon
      obtain ⟨rfl, rfl⟩ := hr.unique hr' hi hi'
      rfl
    | empty _ hnil _ => exact absurd hnil hr.ne_nil
  | empty _ hnil _ =>
    cases h' with
    | run hr' => exact absurd hnil hr'.ne_nil
    | empty => rfl

/-- The segments of a block that are found are its segments. -/
theorem mem_segmentsOf_iff (hb : b < d.graph.size) : s ∈ d.segmentsOf b ↔ d.IsSegment s ∧ s.block = b := by
  unfold segmentsOf
  dsimp only
  split
  · rename_i hzero
    have hnil := List.eq_nil_of_length_eq_zero hzero
    have hempty : d.IsSegment s ∧ s.block = b ↔ s = ⟨b, 0, 0⟩ ∧ d.live.isEntered b = false := by
      constructor
      · rintro ⟨h, rfl⟩
        cases h with
        | run hr => exact absurd hnil hr.ne_nil
        | empty _ _ he => exact ⟨rfl, he⟩
      · rintro ⟨rfl, he⟩
        exact ⟨.empty hb hnil he, rfl⟩
    rw [hempty]
    cases d.live.isEntered b <;> simp
  · rename_i hne
    rw [List.mem_map]
    constructor
    · rintro ⟨⟨start, stop⟩, hr, rfl⟩
      exact ⟨.run (mem_deadRuns_iff.1 hr), rfl⟩
    · rintro ⟨h, rfl⟩
      cases h with
      | run hr => exact ⟨(s.start, s.stop), mem_deadRuns_iff.2 hr, rfl⟩
      | empty _ hnil _ => exact absurd (congrArg List.length hnil) hne

theorem lt_of_isSegment (h : d.IsSegment s) : s.block < d.graph.size := by
  cases h with
  | run hr => exact Nat.lt_of_not_le fun hb => hr.ne_nil (Graph.statements_eq_nil hb)
  | empty hb _ _ => exact hb

/-- The segments that are found are those of the graph. -/
theorem mem_segments_iff : s ∈ d.segments ↔ d.IsSegment s := by
  unfold segments
  rw [List.mem_flatMap]
  constructor
  · rintro ⟨b, hb, hs⟩
    exact ((mem_segmentsOf_iff (List.mem_range.1 hb)).1 hs).1
  · intro h
    exact ⟨s.block, List.mem_range.2 (lt_of_isSegment h), (mem_segmentsOf_iff (lt_of_isSegment h)).2 ⟨h, rfl⟩⟩

/-- A segment of a block that a test finds is the only one that passes the test. -/
theorem find?_segmentsOf_iff {test : Segment → Bool} (hb : b < d.graph.size)
    (hunique : ∀ s t, d.IsSegment s → d.IsSegment t → s.block = b → t.block = b → test s = true → test t = true → s = t) :
    (d.segmentsOf b).find? test = some s ↔ d.IsSegment s ∧ s.block = b ∧ test s = true := by
  constructor
  · intro h
    obtain ⟨hs, hblock⟩ := (mem_segmentsOf_iff hb).1 (List.mem_of_find?_eq_some h)
    exact ⟨hs, hblock, List.find?_some h⟩
  · rintro ⟨hs, hblock, htest⟩
    obtain ⟨t, ht⟩ : ∃ t, (d.segmentsOf b).find? test = some t :=
      Option.isSome_iff_exists.1 (List.find?_isSome.2 ⟨s, (mem_segmentsOf_iff hb).2 ⟨hs, hblock⟩, htest⟩)
    obtain ⟨ht', hblock'⟩ := (mem_segmentsOf_iff hb).1 (List.mem_of_find?_eq_some ht)
    rw [ht, hunique t s ht' hs hblock' hblock (List.find?_some ht) htest]

theorem head?_eq_some_iff (hb : b < d.graph.size) :
    d.head? b = some s ↔ d.IsSegment s ∧ s.block = b ∧ s.start = 0 ∧ d.live.isEntered b = false := by
  unfold head?
  split
  · rename_i he
    simp [he]
  · rename_i he
    rw [find?_segmentsOf_iff hb]
    · simp [he]
    · intro s t hs ht hsb htb h0 h0'
      exact hs.unique ht (hsb.trans htb.symm) (.inl ((eq_of_beq h0).trans (eq_of_beq h0').symm))

theorem tail?_eq_some_iff (hb : b < d.graph.size) : d.tail? b = some s ↔
    d.IsSegment s ∧ s.block = b ∧ s.stop = (d.graph.statements b).length ∧ d.live.fallsThrough b = false := by
  unfold tail?
  split
  · rename_i hf
    simp [hf]
  · rename_i hf
    rw [find?_segmentsOf_iff hb]
    · simp [hf]
    · intro s t hs ht hsb htb h h'
      exact hs.unique ht (hsb.trans htb.symm) (.inr (.inl ((eq_of_beq h).trans (eq_of_beq h').symm)))

/-- The segments that are found behind a segment are those it is linked to. -/
theorem mem_linksFrom_iff (hs : d.IsSegment s) : t ∈ d.linksFrom s ↔ d.IsSegment t ∧ d.Link s t := by
  have hblock := lt_of_isSegment hs
  unfold linksFrom
  rw [List.mem_append]
  constructor
  · rintro (h | h)
    · split at h
      · rename_i htail
        obtain ⟨-, -, hstop, hfalls⟩ := (tail?_eq_some_iff hblock).1 htail
        obtain ⟨b, hb, hhead⟩ := List.mem_filterMap.1 h
        obtain ⟨ht, rfl, h0, he⟩ := (head?_eq_some_iff (Graph.lt_of_mem_successors hb)).1 hhead
        exact ⟨ht, .behind hstop hfalls hb he h0⟩
      · exact absurd h List.not_mem_nil
    · obtain ⟨b, hb, hhead⟩ := List.mem_filterMap.1 h
      obtain ⟨p, hp, hjump⟩ := List.mem_filterMap.1 hb
      obtain ⟨x, -, hx⟩ := Option.bind_eq_some_iff.1 hjump
      obtain ⟨ht, rfl, h0, he⟩ := (head?_eq_some_iff (Graph.lt_of_destination? hx)).1 hhead
      exact ⟨ht, .jump (mem_points_iff.1 hp) hjump he h0⟩
  · rintro ⟨ht, hlink⟩
    have hhead : d.live.isEntered t.block = false → t.start = 0 → d.head? t.block = some t := fun he h0 =>
      (head?_eq_some_iff (lt_of_isSegment ht)).2 ⟨ht, rfl, h0, he⟩
    cases hlink with
    | behind hstop hfalls hsucc he h0 =>
      rw [if_pos ((tail?_eq_some_iff hblock).2 ⟨hs, rfl, hstop, hfalls⟩)]
      exact .inl (List.mem_filterMap.2 ⟨t.block, hsucc, hhead he h0⟩)
    | @jump p hp hjump he h0 =>
      exact .inr (List.mem_filterMap.2 ⟨t.block, List.mem_filterMap.2 ⟨p, mem_points_iff.2 hp, hjump⟩, hhead he h0⟩)

/-! ## Chains of links -/

/-- Rows of the table of neighbours name each other if links join their segments. -/
theorem names_iff {i j : Nat} : Names (d.neighbours d.segments) i j ↔
    ∃ s t, d.segments[i]? = some s ∧ d.segments[j]? = some t ∧ d.Joined s t := by
  rw [mem_neighbours]
  refine exists_congr fun s => exists_congr fun t => and_congr_right fun hs => and_congr_right fun ht => ?_
  have hs' : d.IsSegment s := mem_segments_iff.1 (List.mem_of_getElem? hs)
  have ht' : d.IsSegment t := mem_segments_iff.1 (List.mem_of_getElem? ht)
  rw [mem_linksFrom_iff hs', mem_linksFrom_iff ht', Joined]
  simp only [hs', ht', true_and]

/-- Rows that steps connect are those of segments that a chain of links joins. -/
theorem exists_chain_of_steps {i j : Nat} (hs : d.segments[i]? = some s)
    (h : Relation.ReflTransGen (Names (d.neighbours d.segments)) i j) :
    ∃ t, d.segments[j]? = some t ∧ Relation.ReflTransGen d.Joined s t := by
  induction h with
  | refl => exact ⟨s, hs, .refl⟩
  | tail _ hlast ih =>
    obtain ⟨t, ht, hchain⟩ := ih
    obtain ⟨t', u, ht', hu, hjoined⟩ := names_iff.1 hlast
    obtain rfl := Option.some.inj (ht.symm.trans ht')
    exact ⟨u, hu, hchain.tail hjoined⟩

/-- A chain of links leads from the row of its first segment to one of its last segment. -/
theorem exists_steps_of_chain {i : Nat} (hs : d.segments[i]? = some s) (h : Relation.ReflTransGen d.Joined s t) :
    ∃ j, d.segments[j]? = some t ∧ Relation.ReflTransGen (Names (d.neighbours d.segments)) i j := by
  induction h with
  | refl => exact ⟨i, hs, .refl⟩
  | tail _ hlast ih =>
    obtain ⟨j, hj, hsteps⟩ := ih
    obtain ⟨k, hk⟩ := List.getElem?_of_mem (mem_segments_iff.2 hlast.2.1)
    exact ⟨k, hk, hsteps.tail (names_iff.2 ⟨_, _, hj, hk, hlast⟩)⟩

/-- Segments are in one component exactly if a chain of links joins them. -/
theorem exists_component_iff (hs : d.IsSegment s) :
    (∃ members ∈ d.components, s ∈ members ∧ t ∈ members) ↔ Relation.ReflTransGen d.Joined s t := by
  have hlinked := d.linked_neighbours d.segments
  have hlen := d.length_neighbours d.segments
  rw [components_eq]
  constructor
  · rintro ⟨members, hm, hs, ht⟩
    obtain ⟨group, hgroup, rfl⟩ := List.mem_map.1 hm
    obtain ⟨i, hi, hsi⟩ := List.mem_filterMap.1 hs
    obtain ⟨j, hj, htj⟩ := List.mem_filterMap.1 ht
    obtain ⟨first, hfirst, -, rfl⟩ := mem_groups.1 hgroup
    rw [← hlinked.component_congr hfirst hi, hlinked.mem_component_iff (Linked.lt_of_mem_component hi)] at hj
    obtain ⟨t', ht', hchain⟩ := exists_chain_of_steps hsi hj
    obtain rfl := Option.some.inj (htj.symm.trans ht')
    exact hchain
  · intro hchain
    obtain ⟨i, hsi⟩ := List.getElem?_of_mem (mem_segments_iff.2 hs)
    obtain ⟨j, htj, hsteps⟩ := exists_steps_of_chain hsi hchain
    have hi : i < (d.neighbours d.segments).length := hlen ▸ (List.getElem?_eq_some_iff.1 hsi).1
    obtain ⟨group, hgroup, hig⟩ := List.mem_flatten.1 ((groups_flatten_perm hlinked).mem_iff.2 (List.mem_range.2 hi))
    refine ⟨group.filterMap (d.segments[·]?), List.mem_map.2 ⟨group, hgroup, rfl⟩, List.mem_filterMap.2 ⟨i, hig, hsi⟩,
      List.mem_filterMap.2 ⟨j, ?_, htj⟩⟩
    obtain ⟨first, hfirst, -, rfl⟩ := mem_groups.1 hgroup
    rw [← hlinked.component_congr hfirst hig]
    exact (hlinked.mem_component_iff hi).2 hsteps

/-- A dead statement is in exactly one segment. -/
theorem existsUnique_segment (hs : ∃ s, d.graph.statement? p = some s) (hdead : d.live.isLive p = false) :
    ∃! s, d.IsSegment s ∧ s.Holds p := by
  have hp : p ∈ d.segments.flatMap points := by
    rw [flatMap_points_segments, List.mem_filter, Graph.mem_points, hdead]
    exact ⟨hs, rfl⟩
  obtain ⟨s, hs, hp⟩ := List.mem_flatMap.1 hp
  refine ⟨s, ⟨mem_segments_iff.1 hs, mem_points_iff.1 hp⟩, fun t ⟨ht, htp⟩ => ?_⟩
  have hsp := mem_points_iff.1 hp
  exact ht.unique (mem_segments_iff.1 hs) (htp.1.symm.trans hsp.1) (.inr (.inr ⟨p, htp, hsp⟩))

/-- The code of a region is that of the segments of a component. -/
theorem mem_region_iff (hp : isCodeAt d.graph p = true) (hq : isCodeAt d.graph q = true) :
    (∃ r ∈ d.regions, p ∈ r.statements ∧ q ∈ r.statements) ↔
      ∃ members ∈ d.components, (∃ s ∈ members, s.Holds p) ∧ ∃ t ∈ members, t.Holds q := by
  have hmem : ∀ {members x}, isCodeAt d.graph x = true →
      (x ∈ (d.regionOf members).statements ↔ ∃ s ∈ members, s.Holds x) := by
    intro members x hx
    refine List.mem_filter.trans ((and_iff_left hx).trans ?_)
    rw [List.mem_flatMap]
    exact exists_congr fun s => and_congr_right fun _ => mem_points_iff
  unfold regions
  constructor
  · rintro ⟨r, hr, hpr, hqr⟩
    obtain ⟨members, hm, rfl⟩ := List.mem_map.1 (List.mem_filter.1 hr).1
    exact ⟨members, hm, (hmem hp).1 hpr, (hmem hq).1 hqr⟩
  · rintro ⟨members, hm, hpm, hqm⟩
    have hpr := (hmem hp).2 hpm
    refine ⟨d.regionOf members, List.mem_filter.2 ⟨List.mem_map_of_mem hm, ?_⟩, hpr, (hmem hq).2 hqm⟩
    cases hr : (d.regionOf members).statements with
    | nil => exact absurd (hr ▸ hpr) List.not_mem_nil
    | cons => rfl

end DeadFlow

/-- The dead code of a graph. -/
def Graph.deadFlow (g : Graph) : DeadFlow := ⟨g, g.liveness⟩

/-- Every dead statement that carries code is in exactly one segment, and two of them are in one region exactly if a chain of
links, each passed one way or the other, joins their segments. -/
theorem Graph.mem_region_iff_connected (g : Graph) :
    (∀ p ∈ g.liveness.deadCode g, ∃! s, g.deadFlow.IsSegment s ∧ s.Holds p) ∧
    ∀ p ∈ g.liveness.deadCode g, ∀ q ∈ g.liveness.deadCode g,
      ((∃ r ∈ g.deadRegions g.liveness, p ∈ r.statements ∧ q ∈ r.statements) ↔
        ∃ s t, g.deadFlow.IsSegment s ∧ s.Holds p ∧ g.deadFlow.IsSegment t ∧ t.Holds q ∧
          Relation.ReflTransGen g.deadFlow.Joined s t) := by
  have hcode : ∀ p ∈ g.liveness.deadCode g, DeadFlow.isCodeAt g p = true := by
    intro p hp
    obtain ⟨-, s, hs, hc⟩ := Liveness.mem_deadCode.1 hp
    simp [DeadFlow.isCodeAt, hs, hc]
  refine ⟨fun p hp => ?_, fun p hp q hq => ?_⟩
  · obtain ⟨hdead, s, hs, -⟩ := Liveness.mem_deadCode.1 hp
    exact DeadFlow.existsUnique_segment (d := g.deadFlow) ⟨s, hs⟩ hdead
  · refine (DeadFlow.mem_region_iff (d := g.deadFlow) (hcode p hp) (hcode q hq)).trans ?_
    constructor
    · rintro ⟨members, hm, ⟨s, hs, hsp⟩, t, ht, htq⟩
      have hseg : ∀ x ∈ members, g.deadFlow.IsSegment x := fun x hx =>
        DeadFlow.mem_segments_iff.1 ((g.deadFlow.sublist_of_mem_components hm).subset hx)
      exact ⟨s, t, hseg s hs, hsp, hseg t ht, htq, (DeadFlow.exists_component_iff (hseg s hs)).1 ⟨members, hm, hs, ht⟩⟩
    · rintro ⟨s, t, hs, hsp, -, htq, hchain⟩
      obtain ⟨members, hm, hsm, htm⟩ := (DeadFlow.exists_component_iff hs).2 hchain
      exact ⟨members, hm, ⟨s, hsm, hsp⟩, t, htm, htq⟩

end FlowLint.Flow
