import Mathlib.Data.List.Perm.Subperm
import FlowLint.Proofs.Escape.State

/-!
# What a join adds

A join has the entries of both states, and is the least state above them; so it does not matter in which order states are joined,
or how often. The mark of a join is set exactly if a variable gets an origin that it did not have (`State.growsBy_iff`). A state may
change without that: an entry with no origins may be new (`State.join_ne_iff`, `State.growsBy_emptyEntry`).
-/

namespace FlowLint

namespace OrdSet

variable {α : Type} [Ord α] [Std.TransOrd α] [Std.LawfulEqOrd α] {s t : OrdSet α}

omit [Std.LawfulEqOrd α] in
theorem nodup_toList (s : OrdSet α) : s.toList.Nodup := by
  refine s.ascending.imp fun {a b} hlt heq => ?_
  rw [heq] at hlt
  exact Std.OrientedCmp.not_lt_of_lt hlt hlt

/-- A union has as many elements as its first part exactly if it has no others. -/
theorem size_union_eq_iff : (s.union t).size = s.size ↔ ∀ a ∈ t, a ∈ s := by
  constructor
  · intro hsize a ha
    have hsub : s.toList.Subperm (s.union t).toList :=
      List.subperm_of_subset s.nodup_toList fun x hx => mem_union.2 (.inl hx)
    have hperm := hsub.perm_of_length_le (Nat.le_of_eq hsize)
    exact hperm.mem_iff.2 (mem_union.2 (.inr ha))
  · intro h
    have heq : s.union t = s := ext fun a => ⟨fun ha => (mem_union.1 ha).elim id (h a), fun ha => mem_union.2 (.inl ha)⟩
    rw [heq]

end OrdSet

namespace Escape.State

variable {s t u : State} {v : VarId}

/-! ## Laws -/

theorem join_comm (s t : State) : s.join t = t.join s :=
  le_antisymm (join_le_iff.2 ⟨le_join_right t s, le_join_left t s⟩) (join_le_iff.2 ⟨le_join_right s t, le_join_left s t⟩)

theorem join_self (s : State) : s.join s = s :=
  le_antisymm (join_le_iff.2 ⟨le_refl s, le_refl s⟩) (le_join_left s s)

theorem join_assoc (s t u : State) : (s.join t).join u = s.join (t.join u) := by
  have habove {r : State} : (s.join t).join u ≤ r ↔ s.join (t.join u) ≤ r := by
    rw [join_le_iff, join_le_iff, join_le_iff, join_le_iff, and_assoc]
  exact le_antisymm (habove.2 (le_refl _)) (habove.1 (le_refl _))

/-- A join has an entry for each variable that has one in either state. -/
theorem isSome_get?_join : ((s.join t).get? v).isSome ↔ (s.get? v).isSome ∨ (t.get? v).isSome := by
  rw [get?_join]
  cases t.get? v <;> simp

/-! ## The mark -/

/-- The state beside the mark is the join. -/
theorem foldl_joinEntry_fst (l : List (VarId × Origins)) (s : State) (b : Bool) :
    (l.foldl joinEntry (s, b)).1 = l.foldl (fun s e => s.extend e.1 e.2) s := by
  induction l generalizing s b with
  | nil => rfl
  | cons e l ih => exact ih _ _

theorem atOrEmpty_extend_self (s : State) (v : VarId) (O : Origins) :
    (s.extend v O).atOrEmpty v = (s.atOrEmpty v).union O := by
  rw [atOrEmpty, get?_extend, if_pos rfl, Option.getD_some]

theorem atOrEmpty_extend_of_ne {x : VarId} (h : x ≠ v) (s : State) (O : Origins) :
    (s.extend v O).atOrEmpty x = s.atOrEmpty x := by
  rw [atOrEmpty, get?_extend, if_neg h, atOrEmpty]

/-- Joining one entry sets the mark exactly if the entry has an origin that its variable did not have. -/
theorem joinEntry_mark_iff {b : Bool} {e : VarId × Origins} :
    (joinEntry (s, b) e).2 = true ↔ b = true ∨ ∃ o ∈ e.2, o ∉ s.atOrEmpty e.1 := by
  simp only [joinEntry, atOrEmpty_extend_self, Bool.or_eq_true, bne_iff_ne, ne_eq, OrdSet.size_union_eq_iff]
  push Not
  rfl

/-- The mark behind entries of different variables: each variable still has the origins from the start when its entry comes. -/
theorem foldl_joinEntry_mark_iff {l : List (VarId × Origins)} (hl : l.Pairwise fun a b => compare a.1 b.1 = .lt) {b : Bool} :
    (l.foldl joinEntry (s, b)).2 = true ↔ b = true ∨ ∃ e ∈ l, ∃ o ∈ e.2, o ∉ s.atOrEmpty e.1 := by
  induction l generalizing s b with
  | nil => simp
  | cons e l ih =>
    rw [List.pairwise_cons] at hl
    have hsame : ∀ e' ∈ l, (s.extend e.1 e.2).atOrEmpty e'.1 = s.atOrEmpty e'.1 := by
      intro e' he'
      refine atOrEmpty_extend_of_ne (fun heq => ?_) s e.2
      have hlt := hl.1 e' he'
      rw [heq] at hlt
      exact Std.OrientedCmp.not_lt_of_lt hlt hlt
    have hrest : (∃ e' ∈ l, ∃ o ∈ e'.2, o ∉ (s.extend e.1 e.2).atOrEmpty e'.1) ↔
        ∃ e' ∈ l, ∃ o ∈ e'.2, o ∉ s.atOrEmpty e'.1 :=
      exists_congr fun e' => and_congr_right fun he' => by rw [hsame e' he']
    rw [List.foldl_cons, show joinEntry (s, b) e = (s.extend e.1 e.2, (joinEntry (s, b) e).2) from rfl, ih hl.2, hrest,
      joinEntry_mark_iff, or_assoc]
    simp only [List.mem_cons, or_and_right, exists_or, exists_eq_left]

/-- A join is marked exactly if a variable gets an origin that it did not have. -/
theorem growsBy_iff : s.growsBy t = true ↔ ∃ v, ∃ o ∈ t.atOrEmpty v, o ∉ s.atOrEmpty v := by
  unfold growsBy
  rw [foldl_joinEntry_mark_iff t.ascending]
  simp only [Bool.false_eq_true, false_or]
  constructor
  · rintro ⟨e, he, o, ho, hnew⟩
    exact ⟨e.1, o, mem_atOrEmpty.2 ⟨e.2, OrdMap.lookupSorted_of_mem t.ascending he, ho⟩, hnew⟩
  · rintro ⟨v, o, ho, hnew⟩
    obtain ⟨O, hO, ho⟩ := mem_atOrEmpty.1 ho
    exact ⟨(v, O), OrdMap.mem_of_lookupSorted hO, o, ho, hnew⟩

/-- A join adds nothing to a state exactly if the other state is below it. -/
theorem join_eq_left_iff : s.join t = s ↔ t ≤ s :=
  ⟨fun h => h ▸ le_join_right s t, fun h => le_antisymm (join_le_iff.2 ⟨le_refl s, h⟩) (le_join_left s t)⟩

/-- A join changes a state exactly if it is marked, or if an entry with no origins is new. -/
theorem join_ne_iff : s.join t ≠ s ↔ s.growsBy t = true ∨ ∃ v, s.get? v = none ∧ t.get? v = some .empty := by
  rw [Ne, join_eq_left_iff]
  constructor
  · intro h
    by_contra hnone
    rw [not_or, growsBy_iff] at hnone
    refine h fun v O hO => ?_
    have hsub : ∀ o ∈ O, o ∈ s.atOrEmpty v := fun o ho => by
      by_contra hnew
      exact hnone.1 ⟨v, o, mem_atOrEmpty.2 ⟨O, hO, ho⟩, hnew⟩
    cases hs : s.get? v with
    | some O' => exact ⟨O', rfl, fun o ho => by simpa [atOrEmpty, hs] using hsub o ho⟩
    | none =>
      have hempty : O = .empty := OrdSet.ext fun o =>
        ⟨fun ho => by simpa [atOrEmpty, hs] using hsub o ho, fun ho => absurd ho List.not_mem_nil⟩
      exact absurd ⟨v, hs, hempty ▸ hO⟩ hnone.2
  · rintro (hgrows | ⟨v, hs, ht⟩) hle
    · obtain ⟨v, o, ho, hnew⟩ := growsBy_iff.1 hgrows
      exact hnew (atOrEmpty_mono hle ho)
    · obtain ⟨O', hO', -⟩ := hle v _ ht
      rw [hs] at hO'
      cases hO'

/-- A join of two states is the least state above both, with the entries and the origins of both, however states are joined. The
mark says whether a variable gets a new origin, and the state changes with it, or else by new entries with no origins alone. -/
theorem join_least_and_marked (s t : State) :
    t.entries.foldl joinEntry (s, false) = (s.join t, s.growsBy t) ∧
    (∀ v, ((s.join t).get? v).isSome ↔ (s.get? v).isSome ∨ (t.get? v).isSome) ∧
    (∀ v o, o ∈ (s.join t).atOrEmpty v ↔ o ∈ s.atOrEmpty v ∨ o ∈ t.atOrEmpty v) ∧
    (∀ u, s.join t ≤ u ↔ s ≤ u ∧ t ≤ u) ∧
    (∀ u, (s.join t).join u = s.join (t.join u)) ∧ s.join t = t.join s ∧ s.join s = s ∧
    (s.growsBy t = true ↔ ∃ v, ∃ o ∈ t.atOrEmpty v, o ∉ s.atOrEmpty v) ∧
    (s.join t ≠ s ↔ s.growsBy t = true ∨ ∃ v, s.get? v = none ∧ t.get? v = some .empty) := by
  refine ⟨Prod.ext (foldl_joinEntry_fst t.entries s false) rfl, fun v => isSome_get?_join, fun v o => mem_atOrEmpty_join,
    fun u => join_le_iff, join_assoc s t, join_comm s t, join_self s, growsBy_iff, join_ne_iff⟩

/-- One variable, with an entry that has no origins. -/
def emptyEntry : State := set .empty 0 .empty

/-- The state without entries gets an entry with no origins, and the join is not marked. -/
theorem growsBy_emptyEntry : ¬(growsBy .empty emptyEntry = true ↔ join .empty emptyEntry ≠ .empty) := by
  decide

end Escape.State

end FlowLint
