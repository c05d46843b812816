import FlowLint.Proofs.Escape.Evaluation

/-!
# What statements assign

A statement makes some variables unknown and then gives others new origins (`transfer_eq`). Which ones it changes depends on the
state only where it assigns to a reference (`changedRoots_congr`). The new origins hold no other local variables in a state that has
no others: what a variable without an entry is read as, an unknown place, is no local variable.
-/

namespace FlowLint.Escape

open FlowLint.Escape.Frame

/-! ## What updates do -/

/-- The origins that an update gives its variable. -/
def Frame.Update.result (e : Update) (s : State) : Origins :=
  if e.strong then e.origins else (s.atOrEmpty e.root).union e.origins

/-- A weak update keeps the origins that its variable had. -/
theorem Frame.Update.mem_result {e : Update} {s : State} {o : Origin} :
    o ∈ e.result s ↔ o ∈ e.origins ∨ (e.strong = false ∧ o ∈ s.atOrEmpty e.root) := by
  unfold result
  cases e.strong with
  | true => simp
  | false =>
    rw [if_neg Bool.false_ne_true, OrdSet.mem_union, or_comm]
    simp

namespace State

variable {s t u : State} {v : VarId} {O O' : Origins}

/-- An update is seen at its variable alone. -/
theorem get?_applyUpdate (s : State) (e : Update) (x : VarId) :
    (applyUpdate s e).get? x = if x = e.root then some (e.result s) else s.get? x := by
  unfold applyUpdate Update.result
  cases e.strong with
  | true => exact get?_set s e.root e.origins x
  | false => exact get?_extend s e.root e.origins x

/-- The origins of variables behind an update. -/
theorem mem_atOrEmpty_applyUpdate {e : Update} {x : VarId} {o : Origin} :
    o ∈ (applyUpdate s e).atOrEmpty x ↔ if x = e.root then o ∈ e.result s else o ∈ s.atOrEmpty x := by
  unfold atOrEmpty
  rw [get?_applyUpdate]
  by_cases hx : x = e.root
  · rw [if_pos hx, if_pos hx]
    rfl
  · rw [if_neg hx, if_neg hx]

/-- Some variables get the same origins, each by a strong or a weak update. -/
def assign (s : State) (roots : List (VarId × Bool)) (O : Origins) : State :=
  roots.foldl (fun s r => applyUpdate s ⟨r.1, O, r.2⟩) s

/-- Assignments to other variables leave what a variable has. -/
theorem get?_assign_of_not_mem {roots : List (VarId × Bool)} (h : ∀ strong, (v, strong) ∉ roots) :
    (s.assign roots O).get? v = s.get? v := by
  induction roots generalizing s with
  | nil => rfl
  | cons r roots ih =>
    have hrest : ∀ strong, (v, strong) ∉ roots := fun strong hmem => h strong (List.mem_cons_of_mem _ hmem)
    have hne : v ≠ r.1 := by
      rintro rfl
      exact h r.2 List.mem_cons_self
    have hstep : s.assign (r :: roots) O = (applyUpdate s ⟨r.1, O, r.2⟩).assign roots O := rfl
    rw [hstep, ih hrest, get?_applyUpdate, if_neg hne]

/-- Behind assignments a variable has an entry if it is assigned or had one. -/
theorem isSome_get?_assign {roots : List (VarId × Bool)} :
    ((s.assign roots O).get? v).isSome ↔ (∃ strong, (v, strong) ∈ roots) ∨ (s.get? v).isSome := by
  induction roots generalizing s with
  | nil => simp [assign]
  | cons r roots ih =>
    obtain ⟨w, strong⟩ := r
    have hstep : s.assign ((w, strong) :: roots) O = (applyUpdate s ⟨w, O, strong⟩).assign roots O := rfl
    rw [hstep, ih, get?_applyUpdate]
    by_cases hv : v = w
    · simp [hv]
    · simp [hv]

/-- At the start of a function its parameters are unknown, and no other variable has origins. -/
theorem initial_eq (f : Function) :
    Frame.initial f = State.assign .empty (f.params.map fun x => (x.id, true)) (.singleton .unknown) := by
  rw [assign, List.foldl_map]
  rfl

/-! ## Local variables -/

/-- The local variables that one state gives a variable, another one gives it too. -/
def LocalsIn (s t : State) : Prop := ∀ v x, .stack x ∈ s.atOrEmpty v → .stack x ∈ t.atOrEmpty v

theorem LocalsIn.trans (h : s.LocalsIn t) (h' : t.LocalsIn u) : s.LocalsIn u := fun v x hx => h' v x (h v x hx)

/-- Larger states have more local variables. -/
theorem LocalsIn.of_le (h : s ≤ t) : s.LocalsIn t := fun _ _ => atOrEmpty_mono h

/-- The same kind of update keeps local variables. -/
theorem LocalsIn.applyUpdate (h : s.LocalsIn t) (strong : Bool) (hO : ∀ x, .stack x ∈ O → .stack x ∈ O') :
    (Frame.applyUpdate s ⟨v, O, strong⟩).LocalsIn (Frame.applyUpdate t ⟨v, O', strong⟩) := by
  intro w x hx
  rw [mem_atOrEmpty_applyUpdate] at hx ⊢
  by_cases hw : w = v
  · rw [if_pos hw] at hx ⊢
    rcases Update.mem_result.1 hx with hx | ⟨hweak, hx⟩
    · exact Update.mem_result.2 (.inl (hO x hx))
    · exact Update.mem_result.2 (.inr ⟨hweak, h v x hx⟩)
  · rw [if_neg hw] at hx ⊢
    exact h w x hx

/-- Updates of the same variables keep local variables. -/
theorem LocalsIn.assign (h : s.LocalsIn t) (roots : List (VarId × Bool)) (hO : ∀ x, .stack x ∈ O → .stack x ∈ O') :
    (s.assign roots O).LocalsIn (t.assign roots O') := by
  induction roots generalizing s t with
  | nil => exact h
  | cons r roots ih => exact ih (h.applyUpdate r.2 hO)

/-- The local variables tracked for a variable are those it has. -/
theorem mem_tracked_stack {f : Function} {x : VarId} : .stack x ∈ (Frame.mk f s).tracked v ↔ .stack x ∈ s.atOrEmpty v := by
  unfold tracked atOrEmpty
  cases s.get? v with
  | none =>
    constructor
    · intro h
      cases List.mem_singleton.1 h
    · exact fun h => absurd h List.not_mem_nil
  | some O => exact Iff.rfl

theorem LocalsIn.tracksIn (h : s.LocalsIn t) (f : Function) (v : VarId) :
    TracksIn f (fun o => ∃ x, o = .stack x) s t v := by
  rintro _ ho ⟨x, rfl⟩
  exact mem_tracked_stack.2 (h v x (mem_tracked_stack.1 ho))

end State

namespace Frame

variable {f : Function} {s t : State}

/-- The variable that an assignment to an expression changes a part of: through casts, members and elements of arrays. -/
def rootVar? : Expr → Option VarId
  | .cast _ a => rootVar? a
  | .var _ v => some v
  | .member _ a _ false => rootVar? a
  | .index _ a _ => if a.type.isArray then rootVar? a else none
  | _ => none

/-- The variable that a statement assigns to a part of. -/
def assignedVar? (x : Statement) : Option VarId :=
  match x.action with
  | .assign target _ => rootVar? target
  | _ => none

/-- Whether a variable of a function is a reference. -/
def isReferenceIn (f : Function) (v : VarId) : Bool := isReference ⟨f, .empty⟩ v

theorem isReference_eq (fr : Frame) (v : VarId) : fr.isReference v = isReferenceIn fr.function v := rfl

/-- Which variables an assignment changes depends on the state for references alone. -/
theorem assignedRoots_congr : ∀ e : Expr, (∀ v ∈ rootVar? e, isReferenceIn f v = false) →
    assignedRoots ⟨f, s⟩ e = assignedRoots ⟨f, t⟩ e
  | .cast _ a, h => assignedRoots_congr a h
  | .var _ v, h => by
    have hv : isReferenceIn f v = false := h v rfl
    simp only [assignedRoots, isReference_eq, hv, Bool.false_eq_true, if_false]
  | .member _ a _ false, h => congrArg (List.map _) (assignedRoots_congr a h)
  | .member _ _ _ true, _ => rfl
  | .index _ a _, h => by
    unfold rootVar? at h
    unfold assignedRoots
    by_cases ha : a.type.isArray = true
    · rw [if_pos ha] at h ⊢
      rw [if_pos ha, assignedRoots_congr a h]
    · rw [if_neg ha, if_neg ha]
  | .global _ _, _ | .string _ _ _, _ | .int _ _, _ | .float _ _, _ | .nullptr _, _ | .addressOf _ _, _ | .deref _ _, _
  | .unary _ _ _, _ | .binary _ _ _ _, _ | .conditional _ _ _ _, _ | .call _ _ _ _, _ | .new _, _ | .other _, _ => rfl

/-- The local variables of an expression are kept. -/
theorem stack_mem_value (h : s.LocalsIn t) (e : Expr) {x : VarId} (hx : .stack x ∈ value ⟨f, s⟩ e) : .stack x ∈ value ⟨f, t⟩ e :=
  (places_within Kind.locals e).value (fun v _ => h.tracksIn f v) _ hx ⟨x, rfl⟩

theorem stack_mem_address (h : s.LocalsIn t) (e : Expr) {x : VarId} (hx : .stack x ∈ address ⟨f, s⟩ e) :
    .stack x ∈ address ⟨f, t⟩ e :=
  (places_within Kind.locals e).address (fun v _ => h.tracksIn f v) _ hx ⟨x, rfl⟩

/-- The variables that a statement assigns to, and whether they lose their origins. -/
def changedRoots (fr : Frame) (x : Statement) : List (VarId × Bool) :=
  match x.action with
  | .declare v (some _) => [(v, true)]
  | .assign target _ => fr.assignedRoots target
  | _ => []

/-- The origins that a statement assigns. -/
def newOrigins (fr : Frame) (x : Statement) : Origins :=
  match x.action with
  | .declare v (some init) => if fr.isReference v then fr.address init else fr.value init
  | .assign _ value => fr.value value
  | _ => .empty

section

variable {fr : Frame} {x : Statement} {e a : Expr} {v : VarId}

/-- An assignment gives the value to what its target changes. -/
theorem changedRoots_of_assign (hx : x.action = .assign e a) : changedRoots fr x = fr.assignedRoots e := by
  unfold changedRoots
  rw [hx]

theorem newOrigins_of_assign (hx : x.action = .assign e a) : newOrigins fr x = fr.value a := by
  unfold newOrigins
  rw [hx]

/-- A declaration gives its variable what it is initialised with, and a reference what it is bound to. -/
theorem changedRoots_of_declare (hx : x.action = .declare v (some e)) : changedRoots fr x = [(v, true)] := by
  unfold changedRoots
  rw [hx]

theorem newOrigins_of_declare_reference (hx : x.action = .declare v (some e)) (hv : isReferenceIn fr.function v = true) :
    newOrigins fr x = fr.address e := by
  unfold newOrigins
  rw [hx]
  dsimp only
  rw [isReference_eq, hv, if_pos rfl]

end

/-- The references that are looked up for what an assignment to an expression changes. -/
def rootReads (f : Function) (e : Expr) : List VarId := ((rootVar? e).filter (isReferenceIn f)).toList

/-- The variables that are looked up for what a statement assigns. -/
def consulted (fr : Frame) (x : Statement) : List VarId :=
  match x.action with
  | .declare v (some init) => if fr.isReference v then (fr.reads init).address else (fr.reads init).value
  | .assign target value => rootReads fr.function target ++ (fr.reads value).value
  | _ => []

/-- The origins of a kind that a statement assigns are kept, if those of what it looks up are. -/
theorem newOrigins_within {K : Origin → Prop} (hK : Kind K) {x : Statement}
    (h : ∀ v ∈ consulted ⟨f, t⟩ x, TracksIn f K s t v) : Origins.Within K (newOrigins ⟨f, s⟩ x) (newOrigins ⟨f, t⟩ x) := by
  unfold consulted at h
  unfold newOrigins
  split
  · rename_i v init hact
    rw [hact] at h
    dsimp only at h
    rw [isReference_eq] at h ⊢
    rw [isReference_eq]
    dsimp only at h ⊢
    cases hv : isReferenceIn f v with
    | true =>
      rw [hv] at h
      exact (places_within hK init).address h
    | false =>
      rw [hv] at h
      exact (places_within hK init).value h
  · rename_i target value hact
    rw [hact] at h
    exact (places_within hK value).value fun v hv => h v (List.mem_append_right _ hv)
  · exact .refl _

/-- What a statement that assigns to no reference changes does not depend on the state. -/
theorem changedRoots_congr {x : Statement} (hx : ∀ v ∈ assignedVar? x, isReferenceIn f v = false) :
    changedRoots ⟨f, s⟩ x = changedRoots ⟨f, t⟩ x := by
  unfold assignedVar? at hx
  unfold changedRoots
  cases hact : x.action with
  | assign target value =>
    rw [hact] at hx
    exact assignedRoots_congr target hx
  | declare _ init => cases init <;> rfl
  | call _ | jump _ | label _ _ | eval _ | empty | other => rfl

/-- A statement changes some variables in a way that is not known, and then assigns. -/
theorem transfer_eq (f : Function) (s : State) (x : Statement) :
    transfer f s x =
      (s.assign ((clobbered x).map (·, true)) (.singleton .unknown)).assign (changedRoots ⟨f, s⟩ x) (newOrigins ⟨f, s⟩ x) := by
  have hclobber : (clobbered x).foldl (fun s v => s.set v (.singleton .unknown)) s =
      s.assign ((clobbered x).map (·, true)) (.singleton .unknown) := by
    rw [State.assign, List.foldl_map]
    rfl
  unfold transfer updates changedRoots newOrigins
  rw [hclobber]
  cases x.action with
  | declare v init => cases init <;> rfl
  | assign target value => exact List.foldl_map
  | call _ | jump _ | label _ _ | eval _ | empty | other => rfl

end Frame

end FlowLint.Escape
