import FlowLint.Ordered.Set

/-!
# Finite maps in order

A map is the list of its entries in ascending order of their keys, so that maps with the same values at all keys are equal
(`OrdMap.ext`). `get?_alter` says what changing a value does, and `get?_foldl_entries` what going through the entries of a map does.
-/

namespace FlowLint

/-- A finite map, as the list of its entries in ascending order of the keys. -/
structure OrdMap (κ β : Type) [Ord κ] where
  entries : List (κ × β)
  ascending : entries.Pairwise fun a b => compare a.1 b.1 = .lt
deriving DecidableEq, Repr

namespace OrdMap

variable {κ β : Type} [Ord κ]

/-- The entry list in which the value at a key is changed, or set if there is none. -/
def alterSorted (k : κ) (f : Option β → β) : List (κ × β) → List (κ × β)
  | [] => [(k, f none)]
  | e :: es =>
    match compare k e.1 with
    | .lt => (k, f none) :: e :: es
    | .eq => (e.1, f (some e.2)) :: es
    | .gt => e :: alterSorted k f es

/-- The value at a key of an entry list. -/
def lookupSorted (k : κ) : List (κ × β) → Option β
  | [] => none
  | e :: es => if compare k e.1 = .eq then some e.2 else lookupSorted k es

/-- The map without entries. -/
def empty : OrdMap κ β := ⟨[], .nil⟩

instance : Inhabited (OrdMap κ β) := ⟨empty⟩

/-- The value at a key. -/
def get? (m : OrdMap κ β) (k : κ) : Option β := lookupSorted k m.entries

@[simp] theorem get?_empty (k : κ) : (empty : OrdMap κ β).get? k = none := rfl

variable [Std.TransOrd κ] [Std.LawfulEqOrd κ]

omit [Std.TransOrd κ] [Std.LawfulEqOrd κ] in
/-- The keys after a change are those before and the changed one. -/
theorem key_of_mem_alterSorted {k : κ} {f : Option β → β} {l : List (κ × β)} {e : κ × β} (h : e ∈ alterSorted k f l) :
    e.1 = k ∨ ∃ e' ∈ l, e'.1 = e.1 := by
  induction l with
  | nil =>
    rw [alterSorted, List.mem_singleton] at h
    exact .inl (h ▸ rfl)
  | cons d ds ih =>
    unfold alterSorted at h
    split at h
    · rcases List.mem_cons.1 h with rfl | h
      · exact .inl rfl
      · exact .inr ⟨e, h, rfl⟩
    · rcases List.mem_cons.1 h with rfl | h
      · exact .inr ⟨d, List.mem_cons_self, rfl⟩
      · exact .inr ⟨e, List.mem_cons_of_mem _ h, rfl⟩
    · rcases List.mem_cons.1 h with rfl | h
      · exact .inr ⟨e, List.mem_cons_self, rfl⟩
      · rcases ih h with h | ⟨e', h, h'⟩
        · exact .inl h
        · exact .inr ⟨e', List.mem_cons_of_mem _ h, h'⟩

omit [Std.LawfulEqOrd κ] in
/-- A change keeps the order of the keys. -/
theorem ascending_alterSorted {k : κ} {f : Option β → β} {l : List (κ × β)}
    (h : l.Pairwise fun a b => compare a.1 b.1 = .lt) :
    (alterSorted k f l).Pairwise fun a b => compare a.1 b.1 = .lt := by
  induction l with
  | nil => exact List.pairwise_singleton _ _
  | cons d ds ih =>
    rw [List.pairwise_cons] at h
    unfold alterSorted
    split
    · rename_i hk
      refine List.pairwise_cons.2 ⟨fun x hx => ?_, List.pairwise_cons.2 h⟩
      rcases List.mem_cons.1 hx with rfl | hx
      · exact hk
      · exact Std.TransCmp.lt_trans hk (h.1 x hx)
    · exact List.pairwise_cons.2 h
    · rename_i hk
      refine List.pairwise_cons.2 ⟨fun x hx => ?_, ih h.2⟩
      rcases key_of_mem_alterSorted hx with hx | ⟨e', he', hx⟩
      · rw [hx]
        exact Std.OrientedCmp.lt_of_gt hk
      · rw [← hx]
        exact h.1 e' he'

omit [Std.TransOrd κ] [Std.LawfulEqOrd κ] in
/-- Nothing is found at a key in front of all keys of an entry list. -/
theorem lookupSorted_eq_none {k : κ} {l : List (κ × β)} (h : ∀ e ∈ l, compare k e.1 = .lt) : lookupSorted k l = none := by
  induction l with
  | nil => rfl
  | cons e es ih => simp [lookupSorted, h e List.mem_cons_self, ih fun e' he' => h e' (List.mem_cons_of_mem _ he')]

/-- The map in which the value at a key is changed, or set if there is none. -/
def alter (m : OrdMap κ β) (k : κ) (f : Option β → β) : OrdMap κ β :=
  ⟨alterSorted k f m.entries, ascending_alterSorted m.ascending⟩

/-- The map in which a key has a value. -/
def insert (m : OrdMap κ β) (k : κ) (v : β) : OrdMap κ β := m.alter k fun _ => v

/-- A change is seen at its key alone. -/
theorem get?_alter (m : OrdMap κ β) (k : κ) (f : Option β → β) (x : κ) :
    (m.alter k f).get? x = if compare x k = .eq then some (f (m.get? k)) else m.get? x := by
  obtain ⟨l, hl⟩ := m
  simp only [alter, get?]
  induction l with
  | nil => simp [alterSorted, lookupSorted]
  | cons d ds ih =>
    rw [List.pairwise_cons] at hl
    unfold alterSorted
    split
    · rename_i hk
      have hnone : lookupSorted k (d :: ds) = none := by
        refine lookupSorted_eq_none fun e he => ?_
        rcases List.mem_cons.1 he with rfl | he
        · exact hk
        · exact Std.TransCmp.lt_trans hk (hl.1 e he)
      rw [hnone]
      simp [lookupSorted]
    · rename_i hk
      have hkd : k = d.1 := Std.LawfulEqCmp.eq_of_compare hk
      subst hkd
      by_cases hx : compare x d.1 = .eq
      · simp [lookupSorted, hx, Std.ReflCmp.compare_self]
      · simp [lookupSorted, hx]
    · rename_i hk
      have hne : compare k d.1 ≠ .eq := by rw [hk]; exact fun h => by cases h
      simp only [lookupSorted, hne, if_false]
      rw [ih hl.2]
      by_cases hxd : compare x d.1 = .eq
      · have hxe : x = d.1 := Std.LawfulEqCmp.eq_of_compare hxd
        have hxk : compare x k ≠ .eq := fun h => hne (by
          have := Std.LawfulEqCmp.eq_of_compare h
          rw [← this]
          exact hxd)
        simp [hxd, hxk]
      · simp [hxd]

/-- A new value is seen at its key alone. -/
theorem get?_insert [DecidableEq κ] (m : OrdMap κ β) (k : κ) (v : β) (x : κ) :
    (m.insert k v).get? x = if x = k then some v else m.get? x := by
  simp only [insert, get?_alter, Std.LawfulEqCmp.compare_eq_iff_eq]

omit [Std.TransOrd κ] in
/-- What is found at a key is an entry of the list. -/
theorem mem_of_lookupSorted {k : κ} {v : β} {l : List (κ × β)} (h : lookupSorted k l = some v) : (k, v) ∈ l := by
  induction l with
  | nil => cases h
  | cons e es ih =>
    unfold lookupSorted at h
    split at h
    · rename_i hk
      have : k = e.1 := Std.LawfulEqCmp.eq_of_compare hk
      rw [Option.some.injEq] at h
      rw [this, ← h]
      exact List.mem_cons_self
    · exact List.mem_cons_of_mem _ (ih h)

/-- An entry of an ascending list is found at its key. -/
theorem lookupSorted_of_mem {e : κ × β} {l : List (κ × β)} (hl : l.Pairwise fun a b => compare a.1 b.1 = .lt)
    (h : e ∈ l) : lookupSorted e.1 l = some e.2 := by
  induction l with
  | nil => exact absurd h List.not_mem_nil
  | cons d ds ih =>
    rw [List.pairwise_cons] at hl
    rcases List.mem_cons.1 h with rfl | h
    · simp [lookupSorted, Std.ReflCmp.compare_self]
    · have hne : compare e.1 d.1 ≠ .eq := fun he => by
        have hlt := hl.1 e h
        rw [Std.LawfulEqCmp.eq_of_compare he] at hlt
        exact Std.OrientedCmp.not_lt_of_lt hlt hlt
      simp [lookupSorted, hne, ih hl.2 h]

/-- Maps with the same values at all keys are equal. -/
theorem ext {m n : OrdMap κ β} (h : ∀ k, m.get? k = n.get? k) : m = n := by
  obtain ⟨l, hl⟩ := m
  obtain ⟨l', hl'⟩ := n
  suffices l = l' by
    subst this
    rfl
  simp only [get?] at h
  have hmem : ∀ e, e ∈ l ↔ e ∈ l' := fun e => ⟨fun he => by
    have := lookupSorted_of_mem hl he
    rw [h] at this
    exact mem_of_lookupSorted this, fun he => by
    have := lookupSorted_of_mem hl' he
    rw [← h] at this
    exact mem_of_lookupSorted this⟩
  exact eq_of_mem_iff (fun _ _ => Std.OrientedCmp.not_lt_of_lt) hl hl' hmem

omit [Std.TransOrd κ] in
/-- Going through the entries of a map in order, with a step that changes a second map at the key of the entry alone, is seen at each
key as what the entry of that key does. -/
theorem get?_foldl_entries [DecidableEq κ] {γ : Type} {step : OrdMap κ γ → κ × β → OrdMap κ γ} (value : κ → β → Option γ)
    (hstep : ∀ n e x, (step n e).get? x = if x = e.1 then value x e.2 <|> n.get? x else n.get? x)
    (m : OrdMap κ β) (n : OrdMap κ γ) (x : κ) :
    (m.entries.foldl step n).get? x = ((m.get? x).bind (value x) <|> n.get? x) := by
  obtain ⟨l, hl⟩ := m
  simp only [get?]
  induction l generalizing n with
  | nil => rfl
  | cons e es ih =>
    have hput : lookupSorted x (step n e).entries =
        if x = e.1 then value x e.2 <|> lookupSorted x n.entries else lookupSorted x n.entries := hstep n e x
    rw [List.pairwise_cons] at hl
    rw [List.foldl_cons, ih _ hl.2, hput]
    by_cases hx : x = e.1
    · subst hx
      have hbehind : lookupSorted e.1 es = none := lookupSorted_eq_none hl.1
      simp [lookupSorted, Std.ReflCmp.compare_self, hbehind]
    · simp [lookupSorted, hx]

end OrdMap

end FlowLint
