import FlowLint.Proofs.Escape.Transfer

/-!
# Statements in larger states

A statement keeps the order of states if no variable that it looks up has an entry in the larger state alone (`transfer_mono`):
a variable without an entry is read as an unknown place, which an entry need not have. A write through a reference is a strong
update only as long as the reference has one origin, and a larger state has more.
-/

namespace FlowLint.Escape

open FlowLint.Escape.Frame

namespace State

variable {s t u : State} {v : VarId} {O O' : Origins}

/-- Each entry of a state has origins. -/
def Filled (s : State) : Prop := ∀ v O, s.get? v = some O → ∃ o, o ∈ O

theorem filled_empty : Filled OrdMap.empty := fun v O h => by
  rw [get?_empty] at h
  cases h

/-- An update with origins leaves origins in each entry. -/
theorem Filled.applyUpdate (h : s.Filled) {e : Update} (hO : ∃ o, o ∈ e.origins) : (Frame.applyUpdate s e).Filled := by
  intro w A hA
  rw [get?_applyUpdate] at hA
  by_cases hw : w = e.root
  · rw [if_pos hw, Option.some.injEq] at hA
    obtain ⟨o, ho⟩ := hO
    exact ⟨o, hA ▸ Update.mem_result.2 (.inl ho)⟩
  · rw [if_neg hw] at hA
    exact h w A hA

theorem Filled.assign (h : s.Filled) {roots : List (VarId × Bool)} (hO : roots ≠ [] → ∃ o, o ∈ O) :
    (s.assign roots O).Filled := by
  induction roots generalizing s with
  | nil => exact h
  | cons r roots ih =>
    have ho := hO (List.cons_ne_nil r roots)
    exact ih (h.applyUpdate ho) fun _ => ho

/-- Joins of states with origins in each entry have origins in each entry. -/
theorem Filled.join (hs : s.Filled) (ht : t.Filled) : (s.join t).Filled := by
  intro w A hA
  rw [get?_join] at hA
  cases hw : t.get? w with
  | none =>
    rw [hw] at hA
    exact hs w A hA
  | some O =>
    rw [hw] at hA
    obtain ⟨o, ho⟩ := ht w O hw
    exact ⟨o, Option.some.inj hA ▸ OrdSet.mem_union.2 (.inr ho)⟩

theorem Filled.foldl_join (hs : s.Filled) {l : List State} (hl : ∀ t ∈ l, t.Filled) : (l.foldl State.join s).Filled := by
  induction l generalizing s with
  | nil => exact hs
  | cons t l ih => exact ih (hs.join (hl t List.mem_cons_self)) fun u hu => hl u (List.mem_cons_of_mem t hu)

/-- The same kind of update keeps the order. -/
theorem applyUpdate_mono (h : s ≤ t) (strong : Bool) (hO : ∀ o ∈ O, o ∈ O') :
    Frame.applyUpdate s ⟨v, O, strong⟩ ≤ Frame.applyUpdate t ⟨v, O', strong⟩ := by
  intro w A hA
  rw [get?_applyUpdate] at hA ⊢
  by_cases hw : w = v
  · rw [if_pos hw, Option.some.injEq] at hA
    rw [if_pos hw]
    refine ⟨_, rfl, fun o ho => ?_⟩
    rw [← hA] at ho
    rcases Update.mem_result.1 ho with ho | ⟨hweak, ho⟩
    · exact Update.mem_result.2 (.inl (hO o ho))
    · exact Update.mem_result.2 (.inr ⟨hweak, atOrEmpty_mono h ho⟩)
  · rw [if_neg hw] at hA ⊢
    exact h w A hA

/-- A weak update leaves what is there. -/
theorem le_applyUpdate (s : State) {e : Update} (hweak : e.strong = false) : s ≤ Frame.applyUpdate s e := by
  intro w A hA
  rw [get?_applyUpdate]
  by_cases hw : w = e.root
  · rw [if_pos hw]
    exact ⟨_, rfl, fun o ho => Update.mem_result.2 (.inr ⟨hweak, mem_atOrEmpty.2 ⟨A, hw ▸ hA, ho⟩⟩)⟩
  · rw [if_neg hw]
    exact ⟨A, hA, fun _ ho => ho⟩

/-- The variable of an update has its origins behind it. -/
theorem exists_get?_applyUpdate (s : State) (e : Update) :
    ∃ A, (Frame.applyUpdate s e).get? e.root = some A ∧ ∀ o ∈ e.origins, o ∈ A := by
  refine ⟨e.result s, ?_, fun o ho => Update.mem_result.2 (.inl ho)⟩
  rw [get?_applyUpdate, if_pos rfl]

/-- An update stays below a state that has its origins. -/
theorem applyUpdate_le (h : s ≤ u) {e : Update} (hO : ∃ A, u.get? e.root = some A ∧ ∀ o ∈ e.origins, o ∈ A) :
    Frame.applyUpdate s e ≤ u := by
  obtain ⟨A, hA, hsub⟩ := hO
  intro w B hB
  rw [get?_applyUpdate] at hB
  by_cases hw : w = e.root
  · rw [if_pos hw, Option.some.injEq] at hB
    refine ⟨A, hw ▸ hA, fun o ho => ?_⟩
    rw [← hB] at ho
    rcases Update.mem_result.1 ho with ho | ⟨-, ho⟩
    · exact hsub o ho
    · obtain ⟨A', hA', ho⟩ := mem_atOrEmpty.1 (atOrEmpty_mono h ho)
      rw [hA, Option.some.injEq] at hA'
      exact hA' ▸ ho
  · rw [if_neg hw] at hB
    exact h w B hB

/-- Weak updates leave what is there, and their variables get the new origins. -/
theorem le_assign {roots : List (VarId × Bool)} (hweak : ∀ r ∈ roots, r.2 = false) (s : State) (O : Origins) :
    s ≤ s.assign roots O ∧ ∀ r ∈ roots, ∃ A, (s.assign roots O).get? r.1 = some A ∧ ∀ o ∈ O, o ∈ A := by
  induction roots generalizing s with
  | nil => exact ⟨le_refl s, fun r hr => absurd hr List.not_mem_nil⟩
  | cons r roots ih =>
    obtain ⟨hle, hroots⟩ := ih (fun r hr => hweak r (List.mem_cons_of_mem _ hr)) (Frame.applyUpdate s ⟨r.1, O, r.2⟩)
    have hs := s.le_applyUpdate (e := ⟨r.1, O, r.2⟩) (hweak r List.mem_cons_self)
    obtain ⟨A, hA, hsub⟩ := s.exists_get?_applyUpdate ⟨r.1, O, r.2⟩
    refine ⟨le_trans hs hle, fun r' hr => ?_⟩
    rcases List.mem_cons.1 hr with rfl | hr
    · obtain ⟨A', hA', hsub'⟩ := hle _ A hA
      exact ⟨A', hA', fun o ho => hsub' o (hsub o ho)⟩
    · exact hroots r' hr

/-- Updates of the same variables keep the order. -/
theorem assign_mono (h : s ≤ t) (roots : List (VarId × Bool)) (hO : ∀ o ∈ O, o ∈ O') : s.assign roots O ≤ t.assign roots O' := by
  induction roots generalizing s t with
  | nil => exact h
  | cons r roots ih => exact ih (applyUpdate_mono h r.2 hO)

/-- Updates of some variables stay below weak updates of at least these. -/
theorem assign_le_weak {rs rt : List (VarId × Bool)} (h : s ≤ t) (hO : ∀ o ∈ O, o ∈ O') (hweak : ∀ r ∈ rt, r.2 = false)
    (hsub : ∀ r ∈ rs, ∃ r' ∈ rt, r'.1 = r.1) : s.assign rs O ≤ t.assign rt O' := by
  obtain ⟨hle, hmem⟩ := le_assign hweak t O'
  have hs := le_trans h hle
  clear h hle
  induction rs generalizing s with
  | nil => exact hs
  | cons r rs ih =>
    obtain ⟨r', hr', heq⟩ := hsub r List.mem_cons_self
    obtain ⟨A, hA, hA'⟩ := hmem r' hr'
    exact ih (fun x hx => hsub x (List.mem_cons_of_mem r hx)) (applyUpdate_le hs ⟨A, heq ▸ hA, fun o ho => hA' o (hO o ho)⟩)

/-- A larger state tracks the origins of a variable that has an entry in both states or in none. -/
theorem tracksIn_of_le (h : s ≤ t) (f : Function) {v : VarId} (hv : (t.get? v).isSome = true → (s.get? v).isSome = true) :
    TracksIn f (fun _ => True) s t v := by
  intro o ho _
  unfold tracked at ho ⊢
  dsimp only at ho ⊢
  cases hs : s.get? v with
  | some O =>
    rw [hs] at ho
    obtain ⟨O', hO', hsub⟩ := h v O hs
    rw [hO']
    exact hsub o ho
  | none =>
    cases ht : t.get? v with
    | none =>
      rw [hs] at ho
      exact ho
    | some O' =>
      rw [hs, ht] at hv
      cases hv rfl

/-- A state with origins in each entry tracks origins of each variable. -/
theorem Filled.tracked (h : s.Filled) (f : Function) (v : VarId) : ∃ o, o ∈ (Frame.mk f s).tracked v := by
  unfold Frame.tracked
  dsimp only
  cases hv : s.get? v with
  | none => exact ⟨.unknown, List.mem_singleton_self _⟩
  | some O => exact h v O hv

end State

namespace Frame

variable {f : Function} {s t : State}

/-- An array has origins if its address has. -/
theorem decay_filled {n : Note} {v a : Origins} (hv : ∃ o, o ∈ v) (ha : ∃ o, o ∈ a) :
    (∃ o, o ∈ (decay n v a).value) ∧ ∃ o, o ∈ (decay n v a).address := by
  refine ⟨?_, ha⟩
  unfold decay
  cases n.type.isArray
  · exact hv
  · exact ha

theorem singleton_filled (o : Origin) : ∃ o', o' ∈ OrdSet.singleton o := ⟨o, List.mem_singleton_self o⟩

theorem union_filled {A B : Origins} (h : ∃ o, o ∈ A) : ∃ o, o ∈ OrdSet.union A B :=
  h.imp fun _ ho => OrdSet.mem_union.2 (.inl ho)

theorem varAddress_filled (hs : s.Filled) (v : VarId) : ∃ o, o ∈ varAddress ⟨f, s⟩ v := by
  unfold varAddress
  split
  · exact singleton_filled _
  · split
    · exact hs.tracked f v
    · split
      · exact singleton_filled _
      · exact singleton_filled _

theorem boundValue_filled (hs : s.Filled) (v : VarId) : ∃ o, o ∈ boundValue ⟨f, s⟩ v := by
  obtain ⟨o, ho⟩ := hs.tracked f v
  cases hl : o.local? with
  | none => exact ⟨.unknown, mem_boundValue.2 (.inr ⟨rfl, o, ho, hl⟩)⟩
  | some x =>
    obtain ⟨o', ho'⟩ := hs.tracked f x
    have hx : o = .stack x := by
      cases o <;> cases hl
      rfl
    exact ⟨o', mem_boundValue.2 (.inl ⟨x, hx ▸ ho, ho'⟩)⟩

theorem varValue_filled (hs : s.Filled) (v : VarId) : ∃ o, o ∈ varValue ⟨f, s⟩ v := by
  unfold varValue
  split
  · exact singleton_filled _
  · split
    · exact varAddress_filled hs v
    · split
      · exact varAddress_filled hs v
      · split
        · exact boundValue_filled hs v
        · exact singleton_filled _
    · exact hs.tracked f v

theorem aggregateValue_filled (hs : s.Filled) (a : Expr) : ∃ o, o ∈ aggregateValue ⟨f, s⟩ a := by
  unfold aggregateValue
  split
  · exact hs.tracked f _
  · exact singleton_filled _

/-- Each expression has some origin. -/
theorem places_filled (hs : s.Filled) : ∀ e, (∃ o, o ∈ (places ⟨f, s⟩ e).value) ∧ ∃ o, o ∈ (places ⟨f, s⟩ e).address
  | .var _ v => decay_filled (varValue_filled hs v) (varAddress_filled hs v)
  | .addressOf _ a => decay_filled (places_filled hs a).2 (singleton_filled _)
  | .deref _ a => decay_filled (singleton_filled _) (places_filled hs a).1
  | .member _ a _ arrow => by
    cases arrow
    · exact decay_filled (aggregateValue_filled hs a) (places_filled hs a).2
    · exact decay_filled (singleton_filled _) (places_filled hs a).1
  | .index _ a _ => by
    unfold places
    cases a.type.isArray
    · exact decay_filled (singleton_filled _) (places_filled hs a).1
    · exact decay_filled (aggregateValue_filled hs a) (places_filled hs a).2
  | .binary _ op a b => by
    cases op
    case comma => exact decay_filled (places_filled hs b).1 (places_filled hs b).2
    all_goals exact decay_filled (singleton_filled _) (singleton_filled _)
  | .cast _ a => decay_filled (places_filled hs a).1 (places_filled hs a).2
  | .conditional _ _ a b =>
    decay_filled (union_filled (places_filled hs a).1) (union_filled (places_filled hs a).2)
  | .global _ _ | .string _ _ _ | .int _ _ | .float _ _ | .nullptr _ | .unary _ _ _ | .call _ _ _ _ | .new _ | .other _ =>
    decay_filled (singleton_filled _) (singleton_filled _)

/-- Behind a statement each entry has origins. -/
theorem transfer_filled (hs : s.Filled) (x : Statement) : (transfer f s x).Filled := by
  rw [transfer_eq]
  refine (hs.assign fun _ => singleton_filled .unknown).assign fun hne => ?_
  unfold changedRoots at hne
  unfold newOrigins
  split
  · rename_i v init _
    split
    · exact (places_filled hs init).2
    · exact (places_filled hs init).1
  · exact (places_filled hs _).1
  · rename_i hdeclare hassign
    split at hne
    · rename_i v init hact
      exact absurd hact (hdeclare v init)
    · rename_i target value hact
      exact absurd hact (hassign target value)
    · exact absurd rfl hne

/-- What one of the origins of a set is, if there are no others. -/
theorem eq_of_subset_of_size_eq_one {A B : Origins} (hA : ∃ o, o ∈ A) (h : ∀ o ∈ A, o ∈ B) (hB : B.size = 1) : A = B := by
  obtain ⟨x, hx⟩ := List.length_eq_one_iff.1 hB
  have hBx : ∀ o, o ∈ B ↔ o = x := fun o => by
    change o ∈ B.toList ↔ o = x
    rw [hx, List.mem_singleton]
  obtain ⟨o, ho⟩ := hA
  refine OrdSet.ext fun y => ⟨h y, fun hy => ?_⟩
  rw [(hBx y).1 hy, ← (hBx o).1 (h o ho)]
  exact ho

/-- What an assignment changes in a larger state: the same variables in the same way, or at least these and all weakly. -/
def RootsGrow (roots roots' : List (VarId × Bool)) : Prop :=
  roots = roots' ∨ ((∀ r ∈ roots', r.2 = false) ∧ ∀ r ∈ roots, ∃ r' ∈ roots', r'.1 = r.1)

/-- Parts of variables are changed weakly in both states. -/
theorem RootsGrow.weaken {roots roots' : List (VarId × Bool)} (h : RootsGrow roots roots') :
    RootsGrow (roots.map fun r => (r.1, false)) (roots'.map fun r => (r.1, false)) := by
  rcases h with rfl | ⟨-, hsub⟩
  · exact .inl rfl
  · refine .inr ⟨fun r hr => ?_, fun r hr => ?_⟩
    · obtain ⟨r', -, rfl⟩ := List.mem_map.1 hr
      rfl
    · obtain ⟨r', hr', rfl⟩ := List.mem_map.1 hr
      obtain ⟨r'', hr'', heq⟩ := hsub r' hr'
      exact ⟨_, List.mem_map_of_mem hr'', heq⟩

/-- A reference that is known to be to one variable is so in both states, or it is not known in the larger one. -/
theorem rootsGrow_reference (hs : s.Filled) {v : VarId} (h : TracksIn f (fun _ => True) s t v) :
    RootsGrow ((tracked ⟨f, s⟩ v).locals.map fun x => (x, (tracked ⟨f, s⟩ v).size == 1))
      ((tracked ⟨f, t⟩ v).locals.map fun x => (x, (tracked ⟨f, t⟩ v).size == 1)) := by
  by_cases hsize : (tracked ⟨f, t⟩ v).size = 1
  · rw [eq_of_subset_of_size_eq_one (hs.tracked f v) (fun o ho => h o ho trivial) hsize]
    exact .inl rfl
  · refine .inr ⟨fun r hr => ?_, fun r hr => ?_⟩
    · obtain ⟨x, -, rfl⟩ := List.mem_map.1 hr
      simpa using hsize
    · obtain ⟨x, hx, rfl⟩ := List.mem_map.1 hr
      exact ⟨_, List.mem_map_of_mem (Origins.mem_locals.2 (h _ (Origins.mem_locals.1 hx) trivial)), rfl⟩

/-- What an assignment changes grows with the state, if what is looked up for it does. -/
theorem assignedRoots_mono (hs : s.Filled) : ∀ e : Expr, (∀ v ∈ rootReads f e, TracksIn f (fun _ => True) s t v) →
    RootsGrow (assignedRoots ⟨f, s⟩ e) (assignedRoots ⟨f, t⟩ e)
  | .cast _ a, h => assignedRoots_mono hs a h
  | .var _ v, h => by
    unfold assignedRoots
    rw [isReference_eq, isReference_eq]
    cases hv : isReferenceIn f v with
    | false => exact .inl rfl
    | true =>
      rw [if_pos rfl, if_pos rfl]
      exact rootsGrow_reference hs (h v (by simp [rootReads, rootVar?, hv]))
  | .member _ a _ false, h => (assignedRoots_mono hs a h).weaken
  | .member _ _ _ true, _ => .inl rfl
  | .index _ a _, h => by
    unfold rootReads rootVar? at h
    unfold assignedRoots
    by_cases ha : a.type.isArray = true
    · rw [if_pos ha] at h
      rw [if_pos ha, if_pos ha]
      exact (assignedRoots_mono hs a h).weaken
    · rw [if_neg ha, if_neg ha]
      exact .inl rfl
  | .global _ _, _ | .string _ _ _, _ | .int _ _, _ | .float _ _, _ | .nullptr _, _ | .addressOf _ _, _ | .deref _ _, _
  | .unary _ _ _, _ | .binary _ _ _ _, _ | .conditional _ _ _ _, _ | .call _ _ _ _, _ | .new _, _ | .other _, _ => .inl rfl

/-- What a statement changes grows with the state, if what it looks up does. -/
theorem changedRoots_mono (hs : s.Filled) {x : Statement} (h : ∀ v ∈ consulted ⟨f, t⟩ x, TracksIn f (fun _ => True) s t v) :
    RootsGrow (changedRoots ⟨f, s⟩ x) (changedRoots ⟨f, t⟩ x) := by
  unfold consulted at h
  unfold changedRoots
  split
  · exact .inl rfl
  · rename_i target value hact
    rw [hact] at h
    exact assignedRoots_mono hs target fun v hv => h v (List.mem_append_left _ hv)
  · exact .inl rfl

/-- A statement keeps the order of states, if no variable that it looks up has an entry in the larger state alone. -/
theorem transfer_mono (h : s ≤ t) (hs : s.Filled) {x : Statement}
    (hx : ∀ v ∈ consulted ⟨f, t⟩ x, (t.get? v).isSome = true → (s.get? v).isSome = true) :
    transfer f s x ≤ transfer f t x := by
  have htr : ∀ v ∈ consulted ⟨f, t⟩ x, TracksIn f (fun _ => True) s t v := fun v hv => State.tracksIn_of_le h f (hx v hv)
  have hclobber := State.assign_mono h ((clobbered x).map (·, true)) (O := .singleton .unknown) fun _ ho => ho
  have horigins : ∀ o ∈ newOrigins ⟨f, s⟩ x, o ∈ newOrigins ⟨f, t⟩ x := fun o ho => newOrigins_within Kind.any htr o ho trivial
  rw [transfer_eq, transfer_eq]
  rcases changedRoots_mono hs htr with heq | ⟨hweak, hsub⟩
  · rw [heq]
    exact State.assign_mono hclobber _ horigins
  · exact State.assign_le_weak hclobber horigins hweak hsub

end Frame

end FlowLint.Escape
