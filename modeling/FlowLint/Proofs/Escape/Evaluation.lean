import FlowLint.Proofs.Escape.State

/-!
# Origins of expressions in two states

If a second state tracks at least the origins of a first one, an expression has at least the origins there that it has in the
first one. It is enough to compare the variables that are looked up for the expression (`reads`), and the origins of one kind
(`Kind`): the local variables alone, or all origins.
-/

namespace FlowLint.Escape

/-- A kind of origins that can be followed on its own: with unknown places it has all origins, since an origin that is no local
variable makes what a reference holds unknown. -/
structure Kind (K : Origin → Prop) : Prop where
  stack : ∀ v, K (.stack v)
  all : K .unknown → ∀ o, K o

/-- The local variables are a kind of origins. -/
theorem Kind.locals : Kind fun o => ∃ v, o = .stack v :=
  ⟨fun v => ⟨v, rfl⟩, fun ⟨_, h⟩ => by cases h⟩

/-- All origins are a kind. -/
theorem Kind.any : Kind fun _ => True := ⟨fun _ => trivial, fun _ _ => trivial⟩

/-- The origins of a kind in one set are in another one. -/
def Origins.Within (K : Origin → Prop) (A B : Origins) : Prop := ∀ o ∈ A, K o → o ∈ B

/-- Equal sets have the same origins. -/
theorem Origins.Within.refl {K : Origin → Prop} (A : Origins) : Origins.Within K A A := fun _ ho _ => ho

/-- Unions are monotone. -/
theorem Origins.Within.union {K : Origin → Prop} {A B A' B' : Origins} (h : Origins.Within K A A')
    (h' : Origins.Within K B B') : Origins.Within K (OrdSet.union A B) (OrdSet.union A' B') := by
  intro o ho hk
  rcases OrdSet.mem_union.1 ho with ho | ho
  · exact OrdSet.mem_union.2 (.inl (h o ho hk))
  · exact OrdSet.mem_union.2 (.inr (h' o ho hk))

/-- The local variables among origins. -/
theorem Origins.mem_locals {A : Origins} {v : VarId} : v ∈ A.locals ↔ .stack v ∈ A := by
  unfold Origins.locals
  rw [List.mem_filterMap]
  constructor
  · rintro ⟨o, ho, h⟩
    cases o <;> cases h
    exact ho
  · exact fun h => ⟨_, h, rfl⟩

namespace Frame

/-! ## Variables that are looked up -/

/-- The variables that are looked up for the value and for the address of an expression. -/
structure Reads where
  value : List VarId
  address : List VarId

/-- Looking up the address of a variable: a reference designates what it is bound to. -/
def addressReads (fr : Frame) (v : VarId) : List VarId := if fr.isReference v then [v] else []

/-- Looking up the value of a variable: what is bound to a reference to a pointer is looked up as well. -/
def valueReads (fr : Frame) (v : VarId) : List VarId :=
  match fr.function.variableOf? v with
  | none => []
  | some x =>
    match x.type with
    | .array _ _ => fr.addressReads v
    | .reference t =>
      if t.isArray then fr.addressReads v
      else if t.isPointer then v :: (fr.tracked v).locals
      else []
    | _ => [v]

/-- The value of an array is its address. -/
def decayReads (note : Note) (value address : List VarId) : Reads :=
  ⟨if note.type.isArray then address else value, address⟩

/-- The variables that are looked up for an expression. -/
def reads (fr : Frame) : Expr → Reads
  | .var n v => decayReads n (fr.valueReads v) (fr.addressReads v)
  | .addressOf n a => decayReads n (fr.reads a).address []
  | .deref n a => decayReads n [] (fr.reads a).value
  | .member n a _ arrow =>
    decayReads n (if arrow then [] else a.asVar.toList) (if arrow then (fr.reads a).value else (fr.reads a).address)
  | .index n a _ =>
    decayReads n (if a.type.isArray then a.asVar.toList else [])
      (if a.type.isArray then (fr.reads a).address else (fr.reads a).value)
  | .binary n .comma _ b => decayReads n (fr.reads b).value (fr.reads b).address
  | .cast n a => decayReads n (fr.reads a).value (fr.reads a).address
  | .conditional n _ a b =>
    decayReads n ((fr.reads a).value ++ (fr.reads b).value) ((fr.reads a).address ++ (fr.reads b).address)
  | e => decayReads e.note [] []

/-! ## Comparison -/

section

variable {f : Function} {s t : State} {K : Origin → Prop}

/-- The origins of a kind that one state tracks for a variable, another one tracks too. -/
def TracksIn (f : Function) (K : Origin → Prop) (s t : State) (v : VarId) : Prop :=
  Origins.Within K (Frame.mk f s |>.tracked v) (Frame.mk f t |>.tracked v)

/-- What the places of an expression have of a kind in one state, they have in another one that tracks what is looked up. -/
structure PlacesIn (P : VarId → Prop) (K : Origin → Prop) (r : Reads) (p q : Places) : Prop where
  value : (∀ v ∈ r.value, P v) → Origins.Within K p.value q.value
  address : (∀ v ∈ r.address, P v) → Origins.Within K p.address q.address

theorem PlacesIn.decay {P : VarId → Prop} {n : Note} {rv ra : List VarId} {v a v' a' : Origins}
    (hv : (∀ x ∈ rv, P x) → Origins.Within K v v') (ha : (∀ x ∈ ra, P x) → Origins.Within K a a') :
    PlacesIn P K (decayReads n rv ra) (decay n v a) (decay n v' a') := by
  refine ⟨?_, ha⟩
  unfold decayReads Frame.decay
  cases n.type.isArray
  · exact hv
  · exact ha

/-- The address of a variable depends on the variable alone. -/
theorem varAddress_within {v : VarId} (h : ∀ x ∈ addressReads ⟨f, t⟩ v, TracksIn f K s t x) :
    Origins.Within K (varAddress ⟨f, s⟩ v) (varAddress ⟨f, t⟩ v) := by
  unfold varAddress
  dsimp only
  cases hx : f.variableOf? v with
  | none => exact .refl _
  | some x =>
    dsimp only
    cases hr : x.type.isReference with
    | false =>
      rw [if_neg Bool.false_ne_true, if_neg Bool.false_ne_true]
      exact .refl _
    | true =>
      have href : isReference ⟨f, t⟩ v = true := by
        unfold isReference
        rw [hx]
        exact hr
      exact h v (by rw [addressReads, if_pos href]; exact List.mem_singleton_self v)

/-- What the object that a reference is bound to adds. -/
def boundStep (fr : Frame) (s : Origins) (o : Origin) : Origins :=
  match o with
  | .stack bound => s.union (fr.tracked bound)
  | _ => s.insert .unknown

theorem boundValue_eq (fr : Frame) (v : VarId) : fr.boundValue v = (fr.tracked v).toList.foldl fr.boundStep .empty := rfl

/-- What is held by the objects that a reference is bound to: unknown places if it is bound to something else. -/
theorem mem_boundValue {fr : Frame} {v : VarId} {o : Origin} :
    o ∈ fr.boundValue v ↔
      (∃ x, .stack x ∈ fr.tracked v ∧ o ∈ fr.tracked x) ∨ (o = .unknown ∧ ∃ o' ∈ fr.tracked v, o'.local? = none) := by
  rw [boundValue_eq]
  change _ ↔ (∃ x, .stack x ∈ (fr.tracked v).toList ∧ o ∈ fr.tracked x) ∨
    (o = .unknown ∧ ∃ o' ∈ (fr.tracked v).toList, o'.local? = none)
  generalize (fr.tracked v).toList = l
  suffices h : ∀ A : Origins, o ∈ l.foldl fr.boundStep A ↔
      o ∈ A ∨ (∃ x, .stack x ∈ l ∧ o ∈ fr.tracked x) ∨ (o = .unknown ∧ ∃ o' ∈ l, o'.local? = none) by
    rw [h]
    exact ⟨fun h => h.resolve_left List.not_mem_nil, .inr⟩
  induction l with
  | nil => simp
  | cons a l ih =>
    intro A
    rw [List.foldl_cons, ih]
    cases a with
    | stack x =>
      rw [boundStep, OrdSet.mem_union, or_assoc]
      refine or_congr_right ?_
      simp [Origin.local?, or_and_right, exists_or, or_assoc]
    | nowhere | unknown =>
      simp only [boundStep, OrdSet.mem_insert, List.mem_cons, reduceCtorEq, false_or, Origin.local?, exists_eq_or_imp, true_or,
        and_true]
      constructor
      · rintro ((h | h) | h | h)
        · exact .inr (.inr h)
        · exact .inl h
        · exact .inr (.inl h)
        · exact .inr (.inr h.1)
      · rintro (h | h | h)
        · exact .inl (.inr h)
        · exact .inr (.inl h)
        · exact .inl (.inl h)

theorem boundValue_within (hK : Kind K) {v : VarId}
    (h : ∀ x ∈ v :: (tracked ⟨f, t⟩ v).locals, TracksIn f K s t x) :
    Origins.Within K (boundValue ⟨f, s⟩ v) (boundValue ⟨f, t⟩ v) := by
  have hv : TracksIn f K s t v := h v List.mem_cons_self
  intro o ho hk
  rcases mem_boundValue.1 ho with ⟨x, hx, ho⟩ | ⟨rfl, o', ho', hn⟩
  · have hx' := hv _ hx (hK.stack x)
    have hin : TracksIn f K s t x := h x (List.mem_cons_of_mem v (Origins.mem_locals.2 hx'))
    exact mem_boundValue.2 (.inl ⟨x, hx', hin o ho hk⟩)
  · exact mem_boundValue.2 (.inr ⟨rfl, o', hv o' ho' (hK.all hk o'), hn⟩)

theorem varValue_within (hK : Kind K) {v : VarId} (h : ∀ x ∈ valueReads ⟨f, t⟩ v, TracksIn f K s t x) :
    Origins.Within K (varValue ⟨f, s⟩ v) (varValue ⟨f, t⟩ v) := by
  unfold varValue
  unfold valueReads at h
  dsimp only at h ⊢
  cases hx : f.variableOf? v with
  | none => exact .refl _
  | some x =>
    rw [hx] at h
    dsimp only at h ⊢
    cases hty : x.type with
    | array e n =>
      rw [hty] at h
      exact varAddress_within h
    | reference r =>
      rw [hty] at h
      dsimp only at h ⊢
      by_cases ha : r.isArray = true
      · rw [if_pos ha] at h ⊢
        rw [if_pos ha]
        exact varAddress_within h
      · rw [if_neg ha] at h ⊢
        rw [if_neg ha]
        by_cases hp : r.isPointer = true
        · rw [if_pos hp] at h ⊢
          rw [if_pos hp]
          exact boundValue_within hK h
        · rw [if_neg hp, if_neg hp]
          exact .refl _
    | _ =>
      rw [hty] at h
      exact h v (List.mem_singleton_self v)

/-- The pointers in an aggregate are those of its variable. -/
theorem aggregateValue_within {a : Expr} (h : ∀ x ∈ a.asVar.toList, TracksIn f K s t x) :
    Origins.Within K (aggregateValue ⟨f, s⟩ a) (aggregateValue ⟨f, t⟩ a) := by
  unfold aggregateValue
  cases ha : a.asVar with
  | none => exact .refl _
  | some v => exact h v (by rw [ha]; exact List.mem_singleton_self v)

/-- An expression has the origins of a kind that it has in one state in another one that tracks what is looked up for it. -/
theorem places_within (hK : Kind K) :
    ∀ e, PlacesIn (TracksIn f K s t) K (reads ⟨f, t⟩ e) (places ⟨f, s⟩ e) (places ⟨f, t⟩ e)
  | .var _ _ => .decay (varValue_within hK) varAddress_within
  | .addressOf _ a => .decay (places_within hK a).address fun _ => .refl _
  | .deref _ a => .decay (fun _ => .refl _) (places_within hK a).value
  | .member _ a _ arrow => by
    cases arrow
    · exact .decay aggregateValue_within (places_within hK a).address
    · exact .decay (fun _ => .refl _) (places_within hK a).value
  | .index n a i => by
    unfold reads places
    cases a.type.isArray
    · exact .decay (fun _ => .refl _) (places_within hK a).value
    · exact .decay aggregateValue_within (places_within hK a).address
  | .binary n op a b => by
    cases op
    case comma => exact .decay (places_within hK b).value (places_within hK b).address
    all_goals exact .decay (fun _ => .refl _) fun _ => .refl _
  | .cast _ a => .decay (places_within hK a).value (places_within hK a).address
  | .conditional _ _ a b =>
    .decay (fun h => .union ((places_within hK a).value fun v hv => h v (List.mem_append_left _ hv))
        ((places_within hK b).value fun v hv => h v (List.mem_append_right _ hv)))
      fun h => .union ((places_within hK a).address fun v hv => h v (List.mem_append_left _ hv))
        ((places_within hK b).address fun v hv => h v (List.mem_append_right _ hv))
  | .global _ _ | .string _ _ _ | .int _ _ | .float _ _ | .nullptr _ | .unary _ _ _ | .call _ _ _ _ | .new _ | .other _ =>
    .decay (fun _ => .refl _) fun _ => .refl _

end

end Frame

end FlowLint.Escape
