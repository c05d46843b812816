import FlowLint.Escape.Evaluation

/-!
# States in order

A state is below another one if each variable that has origins in the first one has them, and perhaps more, in the second one.
The order is antisymmetric (`State.le_antisymm`), and a join is the least state above both parts (`State.join_le_iff`), so that
joins of lists depend on their members alone.
-/

namespace FlowLint.Escape

namespace State

variable {s t u : State} {v x : VarId} {O : Origins}

/-- Numbers of variables that compare as equal are equal. -/
theorem compare_eq_iff {v x : VarId} : compare x v = .eq ↔ x = v := Std.LawfulEqCmp.compare_eq_iff_eq

/-- A strong update is seen at its variable alone. -/
theorem get?_set (s : State) (v : VarId) (O : Origins) (x : VarId) :
    (s.set v O).get? x = if x = v then some O else s.get? x := by
  simp only [set, OrdMap.insert, OrdMap.get?_alter, compare_eq_iff]

/-- A weak update is seen at its variable alone. -/
theorem get?_extend (s : State) (v : VarId) (O : Origins) (x : VarId) :
    (s.extend v O).get? x = if x = v then some ((s.atOrEmpty v).union O) else s.get? x := by
  simp only [extend, OrdMap.get?_alter, compare_eq_iff, atOrEmpty]

/-- The state without entries gives no variable origins. -/
theorem get?_empty (x : VarId) : (OrdMap.empty : State).get? x = none := rfl

/-- The origins of a variable in a join are those of both states. -/
theorem get?_join (s t : State) (x : VarId) :
    (s.join t).get? x = (t.get? x).elim (s.get? x) fun O => some ((s.atOrEmpty x).union O) := by
  obtain ⟨l, hl⟩ := t
  unfold join OrdMap.get?
  simp only
  induction l generalizing s with
  | nil => rfl
  | cons e es ih =>
    rw [List.pairwise_cons] at hl
    have hfresh : OrdMap.lookupSorted e.1 es = none := by
      cases h : OrdMap.lookupSorted e.1 es with
      | none => rfl
      | some O =>
        have hlt := hl.1 _ (OrdMap.mem_of_lookupSorted h)
        exact absurd hlt (Std.OrientedCmp.not_lt_of_lt hlt)
    rw [List.foldl_cons]
    refine (ih _ hl.2).trans ?_
    by_cases hx : x = e.1
    · subst hx
      rw [hfresh]
      simp only [OrdMap.lookupSorted, Std.ReflCmp.compare_self, if_true]
      exact (get?_extend s e.1 e.2 e.1).trans (if_pos rfl)
    · have hs : (s.extend e.1 e.2).get? x = s.get? x := by rw [get?_extend, if_neg hx]
      have hat : (s.extend e.1 e.2).atOrEmpty x = s.atOrEmpty x := by rw [atOrEmpty, hs, atOrEmpty]
      have hcmp : compare x e.1 ≠ .eq := fun h => hx (compare_eq_iff.1 h)
      simp only [OrdMap.lookupSorted, if_neg hcmp]
      rw [hat]
      exact congrArg (fun o => (OrdMap.lookupSorted x es).elim o fun O => some ((s.atOrEmpty x).union O)) hs

/-! ## The order -/

/-- Each variable with origins in the first state has these, and perhaps more, in the second one. -/
instance : LE State := ⟨fun s t => ∀ v O, s.get? v = some O → ∃ O', t.get? v = some O' ∧ ∀ o ∈ O, o ∈ O'⟩

theorem le_refl (s : State) : s ≤ s := fun _ O h => ⟨O, h, fun _ ho => ho⟩

theorem le_of_eq (h : s = t) : s ≤ t := h ▸ le_refl s

theorem le_trans (h : s ≤ t) (h' : t ≤ u) : s ≤ u := by
  intro v O hO
  obtain ⟨O₁, hO₁, h₁⟩ := h v O hO
  obtain ⟨O₂, hO₂, h₂⟩ := h' v O₁ hO₁
  exact ⟨O₂, hO₂, fun o ho => h₂ o (h₁ o ho)⟩

/-- States that are below each other are equal. -/
theorem le_antisymm (h : s ≤ t) (h' : t ≤ s) : s = t := by
  refine OrdMap.ext fun v => ?_
  cases hs : s.get? v with
  | none =>
    cases ht : t.get? v with
    | none => rfl
    | some O =>
      obtain ⟨O', hO', -⟩ := h' v O ht
      rw [hs] at hO'
      cases hO'
  | some O =>
    obtain ⟨O₁, hO₁, h₁⟩ := h v O hs
    obtain ⟨O₂, hO₂, h₂⟩ := h' v O₁ hO₁
    rw [hs, Option.some.injEq] at hO₂
    subst hO₂
    rw [hO₁, OrdSet.ext fun o => ⟨h₁ o, h₂ o⟩]

/-- Origins that are read as empty where there are none are those of the entry. -/
theorem mem_atOrEmpty {o : Origin} : o ∈ s.atOrEmpty v ↔ ∃ O, s.get? v = some O ∧ o ∈ O := by
  unfold atOrEmpty
  cases s.get? v with
  | none => exact ⟨fun h => absurd h List.not_mem_nil, fun ⟨_, h, _⟩ => by cases h⟩
  | some O => exact ⟨fun h => ⟨O, rfl, h⟩, fun ⟨_, h, ho⟩ => by cases h; exact ho⟩

/-- Entries are equal if both are there or none is, and they have the same origins. -/
theorem get?_eq_of_mem_iff (h : ∀ o, o ∈ s.atOrEmpty v ↔ o ∈ t.atOrEmpty v) (hsome : (s.get? v).isSome ↔ (t.get? v).isSome) :
    s.get? v = t.get? v := by
  unfold atOrEmpty at h
  cases hs : s.get? v <;> cases ht : t.get? v <;> simp [hs, ht] at h hsome ⊢
  exact OrdSet.ext h

/-- A variable has the origins of both parts in a join. -/
theorem mem_atOrEmpty_join {o : Origin} : o ∈ (s.join t).atOrEmpty v ↔ o ∈ s.atOrEmpty v ∨ o ∈ t.atOrEmpty v := by
  unfold atOrEmpty
  rw [get?_join]
  cases t.get? v with
  | none => exact ⟨.inl, fun h => h.resolve_right List.not_mem_nil⟩
  | some O => exact OrdSet.mem_union

/-- A larger state has more origins. -/
theorem atOrEmpty_mono (h : s ≤ t) {o : Origin} (ho : o ∈ s.atOrEmpty v) : o ∈ t.atOrEmpty v := by
  obtain ⟨O, hO, ho⟩ := mem_atOrEmpty.1 ho
  obtain ⟨O', hO', hsub⟩ := h v O hO
  exact mem_atOrEmpty.2 ⟨O', hO', hsub o ho⟩

/-- A join is above its first part. -/
theorem le_join_left (s t : State) : s ≤ s.join t := by
  intro v O hO
  rw [get?_join]
  cases t.get? v with
  | none => exact ⟨O, hO, fun _ ho => ho⟩
  | some O' => exact ⟨_, rfl, fun o ho => OrdSet.mem_union.2 (.inl (mem_atOrEmpty.2 ⟨O, hO, ho⟩))⟩

/-- A join is above its second part. -/
theorem le_join_right (s t : State) : t ≤ s.join t := by
  intro v O hO
  rw [get?_join, hO]
  exact ⟨_, rfl, fun o ho => OrdSet.mem_union.2 (.inr ho)⟩

/-- A join is the least state above both parts. -/
theorem join_le_iff : s.join t ≤ u ↔ s ≤ u ∧ t ≤ u := by
  constructor
  · exact fun h => ⟨le_trans (le_join_left s t) h, le_trans (le_join_right s t) h⟩
  · rintro ⟨hs, ht⟩ v O hO
    rw [get?_join] at hO
    cases hv : t.get? v with
    | none =>
      rw [hv] at hO
      exact hs v O hO
    | some O₁ =>
      rw [hv] at hO
      obtain ⟨O', hO', hsub⟩ := ht v O₁ hv
      refine ⟨O', hO', fun o ho => ?_⟩
      rw [← Option.some.inj hO] at ho
      rcases OrdSet.mem_union.1 ho with ho | ho
      · obtain ⟨O₂, hO₂, ho₂⟩ := mem_atOrEmpty.1 (atOrEmpty_mono hs ho)
        rw [hO', Option.some.injEq] at hO₂
        rw [hO₂]
        exact ho₂
      · exact hsub o ho

/-- The join of a list is the least state above all its members. -/
theorem foldl_join_le_iff {l : List State} : l.foldl join s ≤ u ↔ s ≤ u ∧ ∀ t ∈ l, t ≤ u := by
  induction l generalizing s with
  | nil => simp
  | cons t l ih =>
    rw [List.foldl_cons, ih, join_le_iff, List.forall_mem_cons, and_assoc]

/-- The join of a list is above where it starts. -/
theorem le_foldl_join (l : List State) (s : State) : s ≤ l.foldl join s := (foldl_join_le_iff.1 (le_refl _)).1

/-- The join of a list is above its members. -/
theorem le_foldl_join_of_mem {l : List State} (h : t ∈ l) : t ≤ l.foldl join s := (foldl_join_le_iff.1 (le_refl _)).2 t h

/-- Joins of lists are monotone. -/
theorem foldl_join_mono {l m : List State} (hs : s ≤ t) (h : ∀ a ∈ l, ∃ b ∈ m, a ≤ b) : l.foldl join s ≤ m.foldl join t := by
  refine foldl_join_le_iff.2 ⟨le_trans hs (le_foldl_join m t), fun a ha => ?_⟩
  obtain ⟨b, hb, hab⟩ := h a ha
  exact le_trans hab (le_foldl_join_of_mem hb)

end State

end FlowLint.Escape
