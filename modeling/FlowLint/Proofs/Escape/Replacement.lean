import FlowLint.Escape.Analysis
import FlowLint.Proofs.Escape.Transfer

/-!
# What statements replace

A statement that writes through a reference replaces the origins of what the reference is bound to only as long as that is one
place. A statement keeps the local variables that one state has of another one, if it replaces in the first state all that it
replaces in the second one (`transfer_localsIn_of_replaces`). States with the same local variables let out the same
(`mem_leaksOf_of_localsIn`).
-/

namespace FlowLint.Escape

open FlowLint.Escape.Frame

namespace State

variable {s t : State} {v : VarId} {O O' : Origins}

/-- Behind assignments a variable has the origins assigned, and those it had unless one of them replaces these. -/
theorem mem_atOrEmpty_assign {roots : List (VarId × Bool)} {o : Origin} :
    o ∈ (s.assign roots O).atOrEmpty v ↔
      ((∃ strong, (v, strong) ∈ roots) ∧ o ∈ O) ∨ ((v, true) ∉ roots ∧ o ∈ s.atOrEmpty v) := by
  induction roots generalizing s with
  | nil => simp [assign]
  | cons r roots ih =>
    obtain ⟨w, strong⟩ := r
    have hstep : s.assign ((w, strong) :: roots) O = (applyUpdate s ⟨w, O, strong⟩).assign roots O := rfl
    rw [hstep, ih, mem_atOrEmpty_applyUpdate]
    dsimp only
    by_cases hv : v = w
    · subst hv
      rw [if_pos rfl, Update.mem_result]
      cases strong <;> grind
    · rw [if_neg hv]
      simp [hv]

/-- A variable has the local variables of both parts in a join. -/
theorem LocalsIn.join {u : State} (hs : s.LocalsIn u) (ht : t.LocalsIn u) : (s.join t).LocalsIn u := by
  intro v x hx
  exact (mem_atOrEmpty_join.1 hx).elim (hs v x) (ht v x)

theorem LocalsIn.foldl_join {u : State} {l : List State} (hs : s.LocalsIn u) (h : ∀ t ∈ l, t.LocalsIn u) :
    (l.foldl State.join s).LocalsIn u := by
  induction l generalizing s with
  | nil => exact hs
  | cons t l ih =>
    rw [List.forall_mem_cons] at h
    exact ih (hs.join h.1) h.2

end State

namespace Frame

variable {f : Function} {s t : State}

theorem mem_map_clobbered {x : Statement} {v : VarId} {strong : Bool} :
    (v, strong) ∈ (clobbered x).map (·, true) ↔ v ∈ clobbered x ∧ strong = true := by
  rw [List.mem_map]
  constructor
  · rintro ⟨w, hw, heq⟩
    obtain ⟨rfl, rfl⟩ := Prod.mk.inj heq
    exact ⟨hw, rfl⟩
  · rintro ⟨hv, rfl⟩
    exact ⟨v, hv, rfl⟩

/-- Behind a statement a variable has an entry if it is assigned, changed in a way that is not known, or had one. -/
theorem isSome_get?_transfer {x : Statement} {v : VarId} :
    ((transfer f s x).get? v).isSome ↔
      (∃ strong, (v, strong) ∈ changedRoots ⟨f, s⟩ x) ∨ v ∈ clobbered x ∨ (s.get? v).isSome := by
  rw [transfer_eq, State.isSome_get?_assign, State.isSome_get?_assign]
  simp only [mem_map_clobbered, exists_and_left, exists_eq, and_true]

/-- A statement leaves the entry of a variable that it neither assigns nor changes in a way that is not known. -/
theorem get?_transfer_of_not_mem {x : Statement} {v : VarId} (hroots : ∀ strong, (v, strong) ∉ changedRoots ⟨f, s⟩ x)
    (hv : v ∉ clobbered x) : (transfer f s x).get? v = s.get? v := by
  have hclobbered : ∀ strong, (v, strong) ∉ (clobbered x).map (·, true) := fun _ hmem => hv (mem_map_clobbered.1 hmem).1
  rw [transfer_eq, State.get?_assign_of_not_mem hroots, State.get?_assign_of_not_mem hclobbered]

/-- Behind a statement a variable has the origins that the statement assigns to it, and what was there before, unless these replace
it: an unknown place if the statement changes the variable in a way that is not known, otherwise the origins it had. -/
theorem mem_atOrEmpty_transfer {x : Statement} {v : VarId} {o : Origin} :
    o ∈ (transfer f s x).atOrEmpty v ↔
      ((∃ strong, (v, strong) ∈ changedRoots ⟨f, s⟩ x) ∧ o ∈ newOrigins ⟨f, s⟩ x) ∨
        ((v, true) ∉ changedRoots ⟨f, s⟩ x ∧
          ((v ∈ clobbered x ∧ o = .unknown) ∨ (v ∉ clobbered x ∧ o ∈ s.atOrEmpty v))) := by
  have hunknown : o ∈ (OrdSet.singleton .unknown : Origins) ↔ o = .unknown := List.mem_singleton
  rw [transfer_eq, State.mem_atOrEmpty_assign, State.mem_atOrEmpty_assign, hunknown]
  simp only [mem_map_clobbered, exists_and_left, exists_eq, and_true]

/-- What an assignment to an expression changes in one state, it changes in a state with more local variables. -/
theorem assignedRoots_localsIn (h : s.LocalsIn t) {v : VarId} : ∀ {e : Expr} {strong : Bool},
    (v, strong) ∈ assignedRoots ⟨f, s⟩ e → ∃ strong', (v, strong') ∈ assignedRoots ⟨f, t⟩ e
  | .cast _ a, _, hr => assignedRoots_localsIn (e := a) h hr
  | .var _ w, strong, hr => by
    unfold assignedRoots at hr ⊢
    rw [isReference_eq] at hr ⊢
    cases hw : isReferenceIn f w with
    | false =>
      rw [hw, if_neg Bool.false_ne_true] at hr
      rw [if_neg Bool.false_ne_true]
      exact ⟨strong, hr⟩
    | true =>
      rw [hw, if_pos rfl] at hr
      rw [if_pos rfl]
      obtain ⟨x, hx, heq⟩ := List.mem_map.1 hr
      obtain ⟨rfl, -⟩ := Prod.mk.inj heq
      have hxt := h w x (State.mem_tracked_stack.1 (Origins.mem_locals.1 hx))
      exact ⟨_, List.mem_map.2 ⟨x, Origins.mem_locals.2 (State.mem_tracked_stack.2 hxt), rfl⟩⟩
  | .member _ a _ false, _, hr => by
    obtain ⟨⟨w, k⟩, hw, heq⟩ := List.mem_map.1 hr
    obtain ⟨rfl, -⟩ := Prod.mk.inj heq
    obtain ⟨k', hk⟩ := assignedRoots_localsIn (e := a) h hw
    exact ⟨false, List.mem_map.2 ⟨_, hk, rfl⟩⟩
  | .index _ a _, _, hr => by
    unfold assignedRoots at hr ⊢
    split at hr
    · rename_i ha
      obtain ⟨⟨w, k⟩, hw, heq⟩ := List.mem_map.1 hr
      obtain ⟨rfl, -⟩ := Prod.mk.inj heq
      obtain ⟨k', hk⟩ := assignedRoots_localsIn (e := a) h hw
      exact ⟨false, by rw [if_pos ha]; exact List.mem_map.2 ⟨_, hk, rfl⟩⟩
    · cases hr

/-- The same for a statement. -/
theorem changedRoots_localsIn (h : s.LocalsIn t) {x : Statement} {v : VarId} {strong : Bool}
    (hr : (v, strong) ∈ changedRoots ⟨f, s⟩ x) : ∃ strong', (v, strong') ∈ changedRoots ⟨f, t⟩ x := by
  unfold changedRoots at hr ⊢
  split at hr
  · rename_i hact
    exact ⟨strong, hr⟩
  · exact assignedRoots_localsIn h hr
  · cases hr

/-- A statement replaces in one state all that it replaces in another one. -/
def ReplacesIn (f : Function) (x : Statement) (t s : State) : Prop :=
  ∀ r ∈ changedRoots ⟨f, t⟩ x, r.2 = true → r ∈ changedRoots ⟨f, s⟩ x

instance (f : Function) (x : Statement) (t s : State) : Decidable (ReplacesIn f x t s) :=
  -- Named, since the pairs of a variable and a truth value are a finite type as well, and far too large a one.
  List.decidableBAll (fun r : VarId × Bool => r.2 = true → r ∈ changedRoots ⟨f, s⟩ x) (changedRoots ⟨f, t⟩ x)

/-- A statement that assigns to no reference replaces the same in all states. -/
theorem ReplacesIn.of_no_reference {x : Statement} (hx : ∀ v ∈ assignedVar? x, isReferenceIn f v = false) : ReplacesIn f x t s :=
  fun _ hr _ => changedRoots_congr hx ▸ hr

/-- A statement keeps local variables, if it replaces all that it replaces in the state that has more of them. -/
theorem transfer_localsIn_of_replaces {x : Statement} (h : s.LocalsIn t) (hr : ReplacesIn f x t s) :
    (transfer f s x).LocalsIn (transfer f t x) := by
  have horigins := newOrigins_within Kind.locals fun v (_ : v ∈ consulted ⟨f, t⟩ x) => h.tracksIn f v
  have hclobbered : (s.assign ((clobbered x).map (·, true)) (.singleton .unknown)).LocalsIn
      (t.assign ((clobbered x).map (·, true)) (.singleton .unknown)) := h.assign _ fun _ hy => hy
  intro v y hy
  rw [transfer_eq, State.mem_atOrEmpty_assign] at hy ⊢
  rcases hy with ⟨⟨strong, hroot⟩, hy⟩ | ⟨hkept, hy⟩
  · exact .inl ⟨changedRoots_localsIn h hroot, horigins _ hy ⟨y, rfl⟩⟩
  · exact .inr ⟨fun hroot => hkept (hr _ hroot rfl), hclobbered v y hy⟩

/-! ## States with the same local variables -/

/-- What is outside in a state is outside in one with fewer local variables. -/
theorem pointsOutside_localsIn (h : s.LocalsIn t) {e : Expr} (ho : pointsOutside ⟨f, t⟩ e = true) :
    pointsOutside ⟨f, s⟩ e = true := by
  unfold pointsOutside at ho ⊢
  rw [Bool.and_eq_true, List.isEmpty_iff] at ho ⊢
  refine ⟨ho.1, List.eq_nil_iff_forall_not_mem.2 fun v hv => ?_⟩
  have hvt := Origins.mem_locals.2 (stack_mem_value h e (Origins.mem_locals.1 hv))
  rw [ho.2] at hvt
  cases hvt

theorem outlives_localsIn (h : s.LocalsIn t) : ∀ {e : Expr}, outlives ⟨f, t⟩ e = true → outlives ⟨f, s⟩ e = true
  | .cast _ a, ho => outlives_localsIn h (e := a) ho
  | .global _ _, _ => rfl
  | .var _ _, ho => ho
  | .deref _ _, ho => pointsOutside_localsIn h ho
  | .member _ _ _ true, ho => pointsOutside_localsIn h ho
  | .member _ a _ false, ho => outlives_localsIn h (e := a) ho
  | .index _ a _, ho => by
    unfold outlives at ho ⊢
    by_cases ha : a.type.isArray = true
    · rw [if_pos ha] at ho ⊢
      exact outlives_localsIn h ho
    · rw [if_neg ha] at ho ⊢
      exact pointsOutside_localsIn h ho

/-- What a statement lets out in a state, it lets out in one with more local variables; a store lets out only what goes outside
there too. -/
theorem mem_leaksOf_of_localsIn (h : s.LocalsIn t) {x : Statement} {l : Leak} (hl : l ∈ leaksOf ⟨f, s⟩ x)
    (hstore : l.sink.isStore = true → t.LocalsIn s) : l ∈ leaksOf ⟨f, t⟩ x := by
  unfold leaksOf at hl ⊢
  dsimp only at hl ⊢
  split at hl
  · rename_i value _
    split at hl
    · obtain ⟨v, hv, rfl⟩ := List.mem_map.1 hl
      exact List.mem_map.2 ⟨v, Origins.mem_locals.2 (stack_mem_address h value (Origins.mem_locals.1 hv)), rfl⟩
    · obtain ⟨v, hv, rfl⟩ := List.mem_map.1 hl
      exact List.mem_map.2 ⟨v, Origins.mem_locals.2 (stack_mem_value h value (Origins.mem_locals.1 hv)), rfl⟩
    · cases hl
  · rename_i target value _
    split at hl
    · rename_i ho
      obtain ⟨v, hv, rfl⟩ := List.mem_map.1 hl
      rw [if_pos (outlives_localsIn (hstore rfl) ho)]
      exact List.mem_map.2 ⟨v, Origins.mem_locals.2 (stack_mem_value h value (Origins.mem_locals.1 hv)), rfl⟩
    · cases hl
  · cases hl

end Frame

end FlowLint.Escape
