import Mathlib.Logic.Relation
import FlowLint.Proofs.Flow.Graph

/-!
# What is reached is closed

Among `n` numbers `n` rounds of a closure are enough: each round but the last one sees a number that was not seen before
(`closure_closed`). So exactly what steps lead to is reached (`mem_reached_iff`), and the blocks of a graph that are reached are
those to which arcs lead from the entry (`Graph.mem_reachable_iff`).
-/

namespace FlowLint.Flow

variable {next : Nat → List Nat}

/-- The numbers below `n` that are not seen yet. -/
def unseen (n : Nat) (seen : List Nat) : Nat := ((List.range n).filter fun x => !seen.contains x).length

/-- A closure keeps what is seen. -/
theorem subset_closure {rounds : Nat} {seen : List Nat} {x : Nat} (hx : x ∈ seen) : x ∈ closure next rounds seen := by
  induction rounds generalizing seen with
  | zero => exact hx
  | succ rounds ih =>
    simp only [closure]
    split
    · exact hx
    · exact ih (List.mem_append_left _ hx)

/-- What a closure sees is where steps lead from what was seen before. -/
theorem exists_steps_of_mem_closure {rounds : Nat} {seen : List Nat} {y : Nat} (hy : y ∈ closure next rounds seen) :
    ∃ x ∈ seen, Relation.ReflTransGen (fun a b => b ∈ next a) x y := by
  induction rounds generalizing seen with
  | zero => exact ⟨y, hy, .refl⟩
  | succ rounds ih =>
    simp only [closure] at hy
    split at hy
    · exact ⟨y, hy, .refl⟩
    · obtain ⟨x, hx, hsteps⟩ := ih hy
      rcases List.mem_append.1 hx with hx | hx
      · exact ⟨x, hx, hsteps⟩
      · rw [List.mem_eraseDups, List.mem_filter, List.mem_flatMap] at hx
        obtain ⟨⟨w, hw, hstep⟩, -⟩ := hx
        exact ⟨w, hw, .head hstep hsteps⟩

/-- Among `n` numbers at most `n` are unseen. -/
theorem unseen_le (n : Nat) (seen : List Nat) : unseen n seen ≤ n := by
  have h := List.length_filter_le (fun x => !seen.contains x) (List.range n)
  rwa [List.length_range] at h

/-- Seeing something new leaves less unseen. -/
theorem unseen_append_lt {n : Nat} {seen new : List Nat} {x : Nat} (hlt : x < n) (hnew : x ∉ seen) (hx : x ∈ new) :
    unseen n (seen ++ new) < unseen n seen := by
  unfold unseen
  have hsub : ((List.range n).filter fun x => !(seen ++ new).contains x) =
      ((List.range n).filter fun x => !seen.contains x).filter fun x => !new.contains x := by
    rw [List.filter_filter]
    refine List.filter_congr fun y _ => ?_
    rw [← Bool.not_or, Bool.or_comm, ← List.contains_append]
  rw [hsub]
  refine List.length_filter_lt_length_iff_exists.2 ⟨x, List.mem_filter.2 ⟨List.mem_range.2 hlt, ?_⟩, ?_⟩
  · simpa using hnew
  · simpa using hx

/-- As many rounds as there are numbers left to see close what is seen under steps. -/
theorem closure_closed {n : Nat} (hnext : ∀ x, ∀ y ∈ next x, y < n) {rounds : Nat} {seen : List Nat}
    (hrounds : unseen n seen ≤ rounds) {x y : Nat} (hx : x ∈ closure next rounds seen) (hy : y ∈ next x) :
    y ∈ closure next rounds seen := by
  induction rounds generalizing seen with
  | zero =>
    have hnil := List.eq_nil_of_length_eq_zero (Nat.le_zero.1 hrounds)
    by_cases hys : y ∈ seen
    · exact hys
    · have : y ∈ (List.range n).filter fun x => !seen.contains x :=
        List.mem_filter.2 ⟨List.mem_range.2 (hnext x y hy), by simpa using hys⟩
      rw [hnil] at this
      cases this
  | succ rounds ih =>
    simp only [closure] at hx ⊢
    have hmem : ∀ z, z ∈ ((seen.flatMap next).filter fun y => !seen.contains y).eraseDups ↔
        (∃ w ∈ seen, z ∈ next w) ∧ z ∉ seen := by
      intro z
      rw [List.mem_eraseDups, List.mem_filter, List.mem_flatMap]
      simp
    generalize ((seen.flatMap next).filter fun y => !seen.contains y).eraseDups = new at hx hmem ⊢
    cases new with
    | nil =>
      simp only [List.isEmpty_nil, if_true] at hx ⊢
      by_cases hys : y ∈ seen
      · exact hys
      · exact absurd ((hmem y).2 ⟨⟨x, hx, hy⟩, hys⟩) List.not_mem_nil
    | cons z new =>
      obtain ⟨⟨w, -, hz⟩, hzs⟩ := (hmem z).1 List.mem_cons_self
      have hlt : unseen n (seen ++ z :: new) < unseen n seen := unseen_append_lt (hnext w z hz) hzs List.mem_cons_self
      exact ih (Nat.le_of_lt_succ (Nat.lt_of_lt_of_le hlt hrounds)) hx

/-- Among numbers that steps do not leave, exactly those are reached that steps lead to. -/
theorem mem_reached_iff {n start y : Nat} (hnext : ∀ x, ∀ y ∈ next x, y < n) (hstart : start < n) :
    y ∈ reached next n start ↔ Relation.ReflTransGen (fun a b => b ∈ next a) start y := by
  unfold reached
  simp only [List.mem_filter, List.mem_range, List.contains_iff_mem]
  constructor
  · rintro ⟨-, hy⟩
    obtain ⟨x, hx, hsteps⟩ := exists_steps_of_mem_closure hy
    rwa [List.mem_singleton.1 hx] at hsteps
  · intro hsteps
    induction hsteps with
    | refl => exact ⟨hstart, subset_closure (List.mem_singleton_self _)⟩
    | tail _ hstep ih => exact ⟨hnext _ _ hstep, closure_closed hnext (unseen_le n _) ih.2 hstep⟩

namespace Graph

variable {g : Graph}

/-- An arc leads from a block to a block. -/
def Leads (g : Graph) (b t : Nat) : Prop := t ∈ (g.arcsOf b).map Arc.target

theorem Leads.of_mem {a : Arc} (h : a ∈ g.arcsOf a.source) : g.Leads a.source a.target := List.mem_map_of_mem h

theorem Leads.lt {b t : Nat} (h : g.Leads b t) : t < g.size := by
  obtain ⟨a, ha, rfl⟩ := List.mem_map.1 h
  exact target_lt ha

/-- The blocks that are reached are those to which arcs lead from the entry. -/
theorem mem_reachable_iff {b : Nat} : b ∈ g.reachable ↔ Relation.ReflTransGen g.Leads g.entry b :=
  mem_reached_iff (fun _ _ h => Leads.lt h) g.entry_lt

/-- What is reached are blocks. -/
theorem lt_of_mem_reachable {b : Nat} (h : b ∈ g.reachable) : b < g.size := List.mem_range.1 (List.mem_filter.1 h).1

/-- The entry is reached. -/
theorem entry_mem_reachable (g : Graph) : g.entry ∈ g.reachable := mem_reachable_iff.2 .refl

/-- Arcs lead from blocks that are reached to blocks that are reached. -/
theorem target_mem_reachable {a : Arc} (hb : a.source ∈ g.reachable) (ha : a ∈ g.arcsOf a.source) : a.target ∈ g.reachable :=
  mem_reachable_iff.2 ((mem_reachable_iff.1 hb).tail (.of_mem ha))

end Graph

end FlowLint.Flow
