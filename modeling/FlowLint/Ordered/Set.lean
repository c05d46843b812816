/-!
# Finite sets in order

A set is the ascending list of its elements, so that sets with the same elements are equal (`OrdSet.ext`). `mem_insert` and
`mem_union` say what the operations do to the elements.
-/

namespace FlowLint

/-- Of two values one does not come behind the other. -/
theorem isLE_total {α : Type} {cmp : α → α → Ordering} [Std.OrientedCmp cmp] (a b : α) :
    ((cmp a b).isLE || (cmp b a).isLE) = true := by
  have hswap : cmp b a = (cmp a b).swap := Std.OrientedCmp.eq_swap
  rw [hswap]
  cases cmp a b <;> rfl

/-- Two lists that are in order of an asymmetric relation and have the same elements are equal. -/
theorem eq_of_mem_iff {α : Type} {r : α → α → Prop} (asymm : ∀ a b, r a b → ¬ r b a) {l m : List α}
    (hl : l.Pairwise r) (hm : m.Pairwise r) (h : ∀ x, x ∈ l ↔ x ∈ m) : l = m := by
  induction l generalizing m with
  | nil =>
    cases m with
    | nil => rfl
    | cons b bs => exact absurd ((h b).2 List.mem_cons_self) List.not_mem_nil
  | cons a as ih =>
    cases m with
    | nil => exact absurd ((h a).1 List.mem_cons_self) List.not_mem_nil
    | cons b bs =>
      rw [List.pairwise_cons] at hl hm
      have hab : a = b := by
        rcases List.mem_cons.1 ((h a).1 List.mem_cons_self) with hab | hab
        · exact hab
        · rcases List.mem_cons.1 ((h b).2 List.mem_cons_self) with hba | hba
          · exact hba.symm
          · exact absurd (hl.1 b hba) (asymm _ _ (hm.1 a hab))
      subst hab
      have not_self {l : List α} (hl : ∀ y ∈ l, r a y) : ∀ y ∈ l, y ≠ a := fun y hy hya => by
        have := hl y hy
        rw [hya] at this
        exact asymm a a this this
      refine congrArg (a :: ·) (ih hl.2 hm.2 fun x => ⟨fun hx => ?_, fun hx => ?_⟩)
      · exact (List.mem_cons.1 ((h x).1 (List.mem_cons_of_mem _ hx))).resolve_left (not_self hl.1 x hx)
      · exact (List.mem_cons.1 ((h x).2 (List.mem_cons_of_mem _ hx))).resolve_left (not_self hm.1 x hx)

/-- A finite set, as the ascending list of its elements. -/
structure OrdSet (α : Type) [Ord α] where
  toList : List α
  ascending : toList.Pairwise fun a b => compare a b = .lt
deriving DecidableEq, Repr

namespace OrdSet

variable {α : Type} [Ord α]

/-- A list with one more element, which is put in front of the first larger one unless it is there already. -/
def insertSorted (a : α) : List α → List α
  | [] => [a]
  | b :: bs =>
    match compare a b with
    | .lt => a :: b :: bs
    | .eq => b :: bs
    | .gt => b :: insertSorted a bs

/-- The set without elements. -/
def empty : OrdSet α := ⟨[], .nil⟩

instance : Inhabited (OrdSet α) := ⟨empty⟩

instance : Membership α (OrdSet α) := ⟨fun s a => a ∈ s.toList⟩

/-- The set of one element. -/
def singleton (a : α) : OrdSet α := ⟨[a], List.pairwise_singleton _ a⟩

/-- The number of elements. -/
def size (s : OrdSet α) : Nat := s.toList.length

variable [Std.TransOrd α] [Std.LawfulEqOrd α]

omit [Std.TransOrd α] in
/-- Inserting adds the element and keeps the others. -/
theorem mem_insertSorted {a x : α} {l : List α} : x ∈ insertSorted a l ↔ x = a ∨ x ∈ l := by
  induction l with
  | nil => simp [insertSorted]
  | cons b bs ih =>
    unfold insertSorted
    split
    · simp
    · rename_i h
      have : a = b := Std.LawfulEqCmp.eq_of_compare h
      simp [this]
    · rw [List.mem_cons, ih, List.mem_cons]
      exact or_left_comm

/-- Inserting keeps the order. -/
theorem ascending_insertSorted {a : α} {l : List α} (h : l.Pairwise fun a b => compare a b = .lt) :
    (insertSorted a l).Pairwise fun a b => compare a b = .lt := by
  induction l with
  | nil => exact List.pairwise_singleton _ a
  | cons b bs ih =>
    rw [List.pairwise_cons] at h
    unfold insertSorted
    split
    · rename_i hab
      refine List.pairwise_cons.2 ⟨fun x hx => ?_, List.pairwise_cons.2 h⟩
      rcases List.mem_cons.1 hx with rfl | hx
      · exact hab
      · exact Std.TransCmp.lt_trans hab (h.1 x hx)
    · exact List.pairwise_cons.2 h
    · rename_i hab
      refine List.pairwise_cons.2 ⟨fun x hx => ?_, ih h.2⟩
      rcases mem_insertSorted.1 hx with rfl | hx
      · exact Std.OrientedCmp.lt_of_gt hab
      · exact h.1 x hx

/-- The set with one more element. -/
def insert (a : α) (s : OrdSet α) : OrdSet α := ⟨insertSorted a s.toList, ascending_insertSorted s.ascending⟩

/-- The elements of either set. -/
def union (s t : OrdSet α) : OrdSet α := t.toList.foldl (fun s a => s.insert a) s

/-- The set of the elements of a list. -/
def ofList (l : List α) : OrdSet α := l.foldl (fun s a => s.insert a) empty

/-- Inserting adds the element and keeps the others. -/
theorem mem_insert {a x : α} {s : OrdSet α} : x ∈ s.insert a ↔ x = a ∨ x ∈ s :=
  mem_insertSorted

/-- Inserting one after the other adds all elements of a list. -/
theorem mem_foldl_insert {x : α} {l : List α} {s : OrdSet α} :
    x ∈ l.foldl (fun s a => s.insert a) s ↔ x ∈ s ∨ x ∈ l := by
  induction l generalizing s with
  | nil => simp
  | cons a l ih =>
    rw [List.foldl_cons, ih, mem_insert, List.mem_cons]
    constructor
    · rintro ((h | h) | h)
      · exact .inr (.inl h)
      · exact .inl h
      · exact .inr (.inr h)
    · rintro (h | h | h)
      · exact .inl (.inr h)
      · exact .inl (.inl h)
      · exact .inr h

/-- A union has the elements of both sets. -/
theorem mem_union {x : α} {s t : OrdSet α} : x ∈ s.union t ↔ x ∈ s ∨ x ∈ t :=
  mem_foldl_insert

/-- The set of a list has the elements of the list. -/
theorem mem_ofList {x : α} {l : List α} : x ∈ ofList l ↔ x ∈ l := by
  unfold ofList
  rw [mem_foldl_insert]
  exact ⟨fun h => h.elim (fun h => absurd h List.not_mem_nil) id, .inr⟩

omit [Std.LawfulEqOrd α] in
/-- Sets with the same elements are equal. -/
theorem ext {s t : OrdSet α} (h : ∀ x, x ∈ s ↔ x ∈ t) : s = t := by
  have := eq_of_mem_iff (fun _ _ => Std.OrientedCmp.not_lt_of_lt) s.ascending t.ascending h
  cases s
  cases t
  cases this
  rfl

end OrdSet

end FlowLint
