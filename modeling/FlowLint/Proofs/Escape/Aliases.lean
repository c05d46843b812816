import FlowLint.Proofs.Escape.Aggregate
import FlowLint.Proofs.Snapshot.Renaming

/-!
# References and what they are bound to

A reference that is bound to one object designates it. With the object in its place an expression has the same sources, renamed
(`sources_rename`), and all of them give the same origins but two: a reference to what is neither an array nor a pointer is read as no
object, and a part of what a reference is bound to is read as the object itself (`BoundTo.readsAlike_iff`). A statement assigns to
the same variables. What it changes in a way that is not known is the reference, and not the object. So an expression and a statement
mean the same with the object in place of the reference exactly if the other origins make up for these (`transparent_iff`).
-/

namespace FlowLint.Escape

open FlowLint.Flow FlowLint.Escape.Frame

namespace Frame

/-! ## Renamed sources -/

/-- A source with other variables. -/
def Source.rename (m : VarId → VarId) : Source → Source
  | .whole v => .whole (m v)
  | .part v => .part (m v)
  | .object v => .object (m v)
  | x => x

/-- Sources with other variables. -/
def Sources.rename (m : VarId → VarId) (s : Sources) : Sources := ⟨s.value.map (Source.rename m), s.address.map (Source.rename m)⟩

variable {m : VarId → VarId}

theorem decaySources_rename (n : Note) (l k : List Source) :
    decaySources n (l.map (Source.rename m)) (k.map (Source.rename m)) = (decaySources n l k).rename m := by
  unfold decaySources Sources.rename
  cases n.type.isArray <;> rfl

theorem partSources_rename (a : Expr) : partSources (a.rename m) = (partSources a).map (Source.rename m) := by
  unfold partSources
  rw [Expr.asVar_rename]
  cases a.asVar <;> rfl

/-- The sources of a renamed expression are the renamed sources. -/
theorem sources_rename : ∀ e : Expr, sources (e.rename m) = (sources e).rename m
  | .var n v => decaySources_rename n [.whole v] [.object v]
  | .global n _ => decaySources_rename n [.unknown] [.nowhere]
  | .string n _ _ => decaySources_rename n [.nowhere] [.nowhere]
  | .int n _ | .float n _ | .nullptr n => decaySources_rename n [.nowhere] [.unknown]
  | .addressOf n a => by
    rw [sources, ← decaySources_rename, Expr.rename, sources, sources_rename a]
    rfl
  | .deref n a => by
    rw [sources, ← decaySources_rename, Expr.rename, sources, sources_rename a]
    rfl
  | .member n a _ arrow => by
    rw [sources, ← decaySources_rename, Expr.rename, sources, sources_rename a, partSources_rename]
    cases arrow <;> rfl
  | .index n a _ => by
    rw [sources, ← decaySources_rename, Expr.rename, sources, sources_rename a, partSources_rename, Expr.type_rename]
    cases a.type.isArray <;> rfl
  | .unary n op _ => by
    rw [sources, ← decaySources_rename]
    cases hop : op.isIncrement <;> simp [Expr.rename, sources, hop, Source.rename]
  | .binary n op a b => by
    cases op
    case comma =>
      rw [sources, ← decaySources_rename, Expr.rename, sources, sources_rename b]
      rfl
    all_goals
      refine Eq.trans ?_ (decaySources_rename n [if n.type.isPointer then .unknown else .nowhere] [.unknown])
      cases hn : n.type.isPointer <;> simp [Expr.rename, sources, hn, Source.rename]
  | .cast n a => by
    rw [sources, ← decaySources_rename, Expr.rename, sources, sources_rename a]
    rfl
  | .conditional n _ a b => by
    rw [sources, ← decaySources_rename, Expr.rename, sources, sources_rename a, sources_rename b, List.map_append, List.map_append]
    rfl
  | .call n _ _ _ | .new n | .other n => decaySources_rename n [.unknown] [.unknown]

/-- The sources of what a renamed statement assigns are the renamed sources. -/
theorem newSources_rename (f : Function) (x : Statement) :
    newSources f (x.rename m) = (newSources f x).map (Source.rename m) := by
  obtain ⟨action, span⟩ := x
  cases action with
  | declare v init =>
    cases init with
    | none => rfl
    | some init =>
      simp only [newSources, Statement.rename, Action.rename, Option.map_some, sources_rename]
      cases isReferenceIn f v <;> rfl
  | assign target value =>
    simp only [newSources, Statement.rename, Action.rename, sources_rename]
    rfl
  | call _ | jump _ | label _ _ | eval _ | empty | other => rfl

/-! ## What renamed statements change in a way that is not known -/

theorem passedVar?_rename (a : Expr) : passedVar? (a.rename m) = (passedVar? a).map m := by
  unfold passedVar?
  rw [Expr.peel_rename]
  cases a.peel with
  | addressOf n operand => exact Expr.asVar_rename operand
  | _ => rfl

theorem steppedVar?_rename (e : Expr) : steppedVar? (e.rename m) = (steppedVar? e).map m := by
  cases e with
  | unary n op operand =>
    unfold Expr.rename steppedVar?
    dsimp only
    cases op.isIncrement
    · rfl
    · exact Expr.asVar_rename operand
  | _ => rfl

/-- A renamed statement changes the renamed variables in a way that is not known. -/
theorem clobbered_rename (x : Statement) : clobbered (x.rename m) = (clobbered x).map m := by
  unfold clobbered
  rw [Statement.calls_rename, Statement.nodes_rename, List.map_append, List.flatMap_map, List.map_flatMap, List.filterMap_map,
    List.map_filterMap]
  refine congrArg₂ _ (List.flatMap_congr fun c _ => ?_) (List.filterMap_congr fun e _ => steppedVar?_rename e)
  rw [CallSite.rename, List.filterMap_map, List.map_filterMap]
  exact List.filterMap_congr fun a _ => passedVar?_rename a

/-! ## A reference that is bound to one object -/

/-- A reference to a type is bound to a stack object of that type, and to nothing else. -/
structure BoundTo (fr : Frame) (r s : VarId) (t : CType) : Prop where
  reference : (fr.function.variableOf? r).map Variable.type = some (.reference t)
  object : IsStackObject fr.function s
  type : (fr.function.variableOf? s).map Variable.type = some t
  bound : fr.state.get? r = some (.singleton (.stack s))

/-- One variable in place of another one. -/
def replacing (r s : VarId) (v : VarId) : VarId := if v = r then s else v

variable {fr : Frame} {f : Function} {st : State} {r s v : VarId} {t : CType}

theorem replacing_self (r s : VarId) : replacing r s r = s := if_pos rfl

theorem replacing_of_ne (h : v ≠ r) : replacing r s v = v := if_neg h

namespace BoundTo

theorem tracked_eq (h : BoundTo fr r s t) : fr.tracked r = .singleton (.stack s) := by
  unfold tracked
  rw [h.bound]
  rfl

theorem isReferenceIn_eq (h : BoundTo fr r s t) : isReferenceIn fr.function r = true := by
  obtain ⟨x, hx, hty⟩ := Option.map_eq_some_iff.1 h.reference
  unfold isReferenceIn isReference
  dsimp only
  rw [hx, Option.map_some, hty]
  rfl

/-- What the reference designates is the object. -/
theorem varAddress_eq (h : BoundTo fr r s t) : fr.varAddress r = fr.varAddress s := by
  obtain ⟨x, hx, hty⟩ := Option.map_eq_some_iff.1 h.reference
  rw [varAddress_of_isStackObject h.object, ← h.tracked_eq]
  unfold varAddress
  rw [hx]
  dsimp only
  rw [hty]
  rfl

/-- What the object is read as, if it is no array, is what it holds. -/
theorem varValue_object (h : BoundTo fr r s t) (ht : t.isArray = false) : fr.varValue s = fr.tracked s := by
  obtain ⟨y, hy, hkind, hstorage, href⟩ := h.object
  obtain rfl : y.type = t := by simpa [hy] using h.type
  unfold varValue
  rw [hy]
  dsimp only
  cases hty : y.type <;> simp [hty, CType.isArray, CType.referent, CType.isReference] at ht href ⊢

/-- A reference to an array or a pointer is read as the object. -/
theorem varValue_eq (h : BoundTo fr r s t) (ht : t.isArray = true ∨ t.isPointer = true) : fr.varValue r = fr.varValue s := by
  obtain ⟨x, hx, hty⟩ := Option.map_eq_some_iff.1 h.reference
  obtain ⟨y, hy, hkind, hstorage, href⟩ := h.object
  have hreference : fr.varValue r =
      if t.isArray then fr.varAddress r else if t.isPointer then fr.boundValue r else .singleton .nowhere := by
    unfold varValue
    rw [hx]
    dsimp only
    rw [hty]
  rw [hreference]
  cases harray : t.isArray with
  | true =>
    obtain rfl : y.type = t := by simpa [hy] using h.type
    rw [if_pos rfl, h.varAddress_eq]
    unfold varValue
    rw [hy]
    dsimp only
    cases hty : y.type <;> simp [hty, CType.isArray, CType.referent, CType.isReference] at harray href ⊢
  | false =>
    have hpointer : t.isPointer = true := ht.resolve_left (by simp [harray])
    rw [if_neg Bool.false_ne_true, if_pos hpointer, h.varValue_object harray]
    refine OrdSet.ext fun o => ?_
    rw [mem_boundValue, h.tracked_eq]
    constructor
    · rintro (⟨w, hw, ho⟩ | ⟨-, o', ho', hn⟩)
      · obtain rfl : w = s := Origin.stack.inj (List.mem_singleton.1 hw)
        exact ho
      · rw [List.mem_singleton.1 ho'] at hn
        cases hn
    · exact fun ho => .inl ⟨s, List.mem_singleton_self _, ho⟩

/-- A reference to something else is read as no object. -/
theorem varValue_reference (h : BoundTo fr r s t) (harray : t.isArray = false) (hpointer : t.isPointer = false) :
    fr.varValue r = .singleton .nowhere := by
  obtain ⟨x, hx, hty⟩ := Option.map_eq_some_iff.1 h.reference
  unfold varValue
  rw [hx]
  dsimp only
  rw [hty]
  dsimp only
  rw [harray, hpointer]
  rfl

end BoundTo

/-! ## Reading -/

/-- What the sources give through the reference is in `B`, and what they give with the object in its place is in `A`, as far as the
two differ: a reference to what is neither an array nor a pointer is read as no object, a part of what it is bound to as the object
itself, and the object and its parts are read as what the object holds. -/
structure ReadsAlike (fr : Frame) (r s : VarId) (t : CType) (l : List Source) (A B : Origins) : Prop where
  whole : .whole r ∈ l → t.isArray = false → t.isPointer = false → .nowhere ∈ B ∧ ∀ o ∈ fr.tracked s, o ∈ A
  part : .part r ∈ l → .stack s ∈ B ∧ ∀ o ∈ fr.tracked s, o ∈ A

/-- A source that is read in another way with the object in place of the reference. -/
inductive Differs (r : VarId) (t : CType) : Source → Prop where
  | whole : t.isArray = false → t.isPointer = false → Differs r t (.whole r)
  | part : Differs r t (.part r)

/-- Other sources give the same. -/
theorem BoundTo.given_rename (h : BoundTo fr r s t) {x : Source} (hx : ¬Differs r t x) :
    fr.given (x.rename (replacing r s)) = fr.given x := by
  cases x with
  | nowhere | unknown => rfl
  | whole v =>
    by_cases hv : v = r
    · subst hv
      rw [Source.rename, replacing_self]
      refine (h.varValue_eq ?_).symm
      by_contra hn
      rw [not_or, Bool.not_eq_true, Bool.not_eq_true] at hn
      exact hx (.whole hn.1 hn.2)
    · rw [Source.rename, replacing_of_ne hv]
  | part v =>
    by_cases hv : v = r
    · subst hv
      exact absurd .part hx
    · rw [Source.rename, replacing_of_ne hv]
  | object v =>
    by_cases hv : v = r
    · subst hv
      rw [Source.rename, replacing_self]
      exact h.varAddress_eq.symm
    · rw [Source.rename, replacing_of_ne hv]

/-- With the object in place of the reference, sources that give nothing but what is in one set give nothing but what is in another
one, and the other way round, exactly if those that are read in another way do. -/
theorem BoundTo.readsAlike_iff (h : BoundTo fr r s t) {l : List Source} {A B P Q : Origins} (hA : fr.IsGiven A l)
    (hB : fr.IsGiven B (l.map (Source.rename (replacing r s)))) (hP : ∀ o ∈ A, o ∈ P) (hQ : ∀ o ∈ B, o ∈ Q) :
    ReadsAlike fr r s t l P Q ↔ (∀ o ∈ A, o ∈ Q) ∧ ∀ o ∈ B, o ∈ P := by
  have hfrom : ∀ x ∈ l, ∀ o ∈ fr.given x, o ∈ A := fun x hx o ho => (hA o).2 ⟨x, hx, ho⟩
  have hrenamed : ∀ x ∈ l, ∀ o ∈ fr.given (x.rename (replacing r s)), o ∈ B :=
    fun x hx o ho => (hB o).2 ⟨_, List.mem_map.2 ⟨x, hx, rfl⟩, ho⟩
  have hpart : fr.given (.part r) = .singleton (.stack s) := h.tracked_eq
  have hpart' : fr.given (Source.rename (replacing r s) (.part r)) = fr.tracked s := by
    rw [Source.rename, replacing_self]
    rfl
  have hwhole : t.isArray = false → t.isPointer = false → fr.given (.whole r) = .singleton .nowhere := h.varValue_reference
  have hwhole' : t.isArray = false → fr.given (Source.rename (replacing r s) (.whole r)) = fr.tracked s := by
    intro ht
    rw [Source.rename, replacing_self]
    exact h.varValue_object ht
  constructor
  · intro hread
    refine ⟨fun o ho => ?_, fun o ho => ?_⟩
    · obtain ⟨x, hx, hox⟩ := (hA o).1 ho
      by_cases hd : Differs r t x
      · cases hd with
        | whole ha hp =>
          rw [hwhole ha hp] at hox
          rw [List.mem_singleton.1 hox]
          exact (hread.whole hx ha hp).1
        | part =>
          rw [hpart] at hox
          rw [List.mem_singleton.1 hox]
          exact (hread.part hx).1
      · exact hQ o (hrenamed x hx o (h.given_rename hd ▸ hox))
    · obtain ⟨y, hy, hoy⟩ := (hB o).1 ho
      obtain ⟨x, hx, rfl⟩ := List.mem_map.1 hy
      by_cases hd : Differs r t x
      · cases hd with
        | whole ha hp => exact (hread.whole hx ha hp).2 o (hwhole' ha ▸ hoy)
        | part => exact (hread.part hx).2 o (hpart' ▸ hoy)
      · exact hP o (hfrom x hx o (h.given_rename hd ▸ hoy))
  · rintro ⟨hAQ, hBP⟩
    refine ⟨fun hx ha hp => ⟨?_, fun o ho => ?_⟩, fun hx => ⟨?_, fun o ho => ?_⟩⟩
    · exact hAQ _ (hfrom _ hx _ (hwhole ha hp ▸ List.mem_singleton_self _))
    · exact hBP o (hrenamed _ hx o ((hwhole' ha).symm ▸ ho))
    · exact hAQ _ (hfrom _ hx _ (hpart ▸ List.mem_singleton_self _))
    · exact hBP o (hrenamed _ hx o (hpart'.symm ▸ ho))

/-- Sources give the same with the object in place of the reference exactly if those that are read in another way give nothing new. -/
theorem BoundTo.eq_iff_readsAlike (h : BoundTo fr r s t) {l : List Source} {A B : Origins} (hA : fr.IsGiven A l)
    (hB : fr.IsGiven B (l.map (Source.rename (replacing r s)))) : B = A ↔ ReadsAlike fr r s t l A B := by
  rw [h.readsAlike_iff hA hB (fun _ ho => ho) fun _ ho => ho]
  constructor
  · rintro rfl
    exact ⟨fun _ ho => ho, fun _ ho => ho⟩
  · exact fun hsub => OrdSet.ext fun o => ⟨hsub.2 o, hsub.1 o⟩

/-! ## Writing -/

/-- An assignment changes the same variables with the object in place of the reference. -/
theorem BoundTo.assignedRoots_rename (h : BoundTo fr r s t) :
    ∀ e : Expr, fr.assignedRoots (e.rename (replacing r s)) = fr.assignedRoots e
  | .cast _ a => h.assignedRoots_rename a
  | .var _ v => by
    by_cases hv : v = r
    · subst hv
      have hobject : isReferenceIn fr.function s = false := isReferenceIn_of_isStackObject h.object
      rw [Expr.rename, replacing_self, assignedRoots, assignedRoots, isReference_eq, isReference_eq, hobject, h.isReferenceIn_eq,
        h.tracked_eq]
      rfl
    · rw [Expr.rename, replacing_of_ne hv]
  | .member _ a _ false => congrArg (List.map _) (h.assignedRoots_rename a)
  | .member _ _ _ true => rfl
  | .index _ a _ => by
    rw [Expr.rename, assignedRoots, assignedRoots, Expr.type_rename, h.assignedRoots_rename a]
  | .global _ _ | .string _ _ _ | .int _ _ | .float _ _ | .nullptr _ | .addressOf _ _ | .deref _ _ | .unary _ _ _ | .binary _ _ _ _
  | .conditional _ _ _ _ | .call _ _ _ _ | .new _ | .other _ => rfl

theorem BoundTo.changedRoots_rename (h : BoundTo fr r s t) (x : Statement) :
    changedRoots fr (x.rename (replacing r s)) = changedRoots fr x := by
  obtain ⟨action, span⟩ := x
  cases action with
  | assign target value => exact h.assignedRoots_rename target
  | declare v init => cases init <;> rfl
  | call _ | jump _ | label _ _ | eval _ | empty | other => rfl

theorem mem_clobbered_replacing {x : Statement} (hv : v ≠ r) :
    v ∈ clobbered (x.rename (replacing r s)) ↔ v ∈ clobbered x ∨ (v = s ∧ r ∈ clobbered x) := by
  rw [clobbered_rename, List.mem_map]
  constructor
  · rintro ⟨w, hw, rfl⟩
    by_cases hwr : w = r
    · subst hwr
      exact .inr ⟨replacing_self w s, hw⟩
    · rw [replacing_of_ne hwr]
      exact .inl hw
  · rintro (hmem | ⟨rfl, hmem⟩)
    · exact ⟨v, hmem, replacing_of_ne hv⟩
    · exact ⟨r, hmem, replacing_self r v⟩

section

variable {x : Statement} {o : Origin}

/-- Behind a statement with the object in place of the reference a variable has what is assigned there, and what was there before: the
object is changed in a way that is not known where the reference was. -/
theorem BoundTo.mem_atOrEmpty_transfer_rename (h : BoundTo ⟨f, st⟩ r s t) (hv : v ≠ r) :
    o ∈ (transfer f st (x.rename (replacing r s))).atOrEmpty v ↔
      ((∃ strong, (v, strong) ∈ changedRoots ⟨f, st⟩ x) ∧ o ∈ newOrigins ⟨f, st⟩ (x.rename (replacing r s))) ∨
        ((v, true) ∉ changedRoots ⟨f, st⟩ x ∧
          (((v ∈ clobbered x ∨ (v = s ∧ r ∈ clobbered x)) ∧ o = .unknown) ∨
            (¬(v ∈ clobbered x ∨ (v = s ∧ r ∈ clobbered x)) ∧ o ∈ st.atOrEmpty v))) := by
  rw [mem_atOrEmpty_transfer, h.changedRoots_rename, mem_clobbered_replacing hv]

/-- What is assigned to a variable reads alike in both cases if each of the two is where the other one is. -/
theorem BoundTo.readsAlike_assigned_iff (h : BoundTo ⟨f, st⟩ r s t) (hv : v ≠ r)
    (hroot : ∃ strong, (v, strong) ∈ changedRoots ⟨f, st⟩ x) :
    ReadsAlike ⟨f, st⟩ r s t (newSources f x) ((transfer f st x).atOrEmpty v)
        ((transfer f st (x.rename (replacing r s))).atOrEmpty v) ↔
      (∀ o ∈ newOrigins ⟨f, st⟩ x, o ∈ (transfer f st (x.rename (replacing r s))).atOrEmpty v) ∧
        ∀ o ∈ newOrigins ⟨f, st⟩ (x.rename (replacing r s)), o ∈ (transfer f st x).atOrEmpty v := by
  refine h.readsAlike_iff (fun o => mem_newOrigins_iff) (fun o => ?_) (fun o ho => ?_) fun o ho => ?_
  · rw [mem_newOrigins_iff, newSources_rename]
  · exact mem_atOrEmpty_transfer.2 (.inl ⟨hroot, ho⟩)
  · exact (h.mem_atOrEmpty_transfer_rename hv).2 (.inl ⟨hroot, ho⟩)

/-- A statement leaves a variable the same with the object in place of the reference, if behind it the variable has `P` with the
reference and `Q` with the object: what it assigns to the variable is in both, and a change of the reference in a way that is not
known, which is one of the object in its place, loses nothing of the object and adds nothing to it, unless the object is replaced or
changed in this way itself. -/
structure LeavesAlike (f : Function) (st : State) (r s : VarId) (t : CType) (x : Statement) (v : VarId) (P Q : Origins) : Prop where
  assigned : (∃ strong, (v, strong) ∈ changedRoots ⟨f, st⟩ x) → ReadsAlike ⟨f, st⟩ r s t (newSources f x) P Q
  clobbered : v = s → (v, true) ∉ changedRoots ⟨f, st⟩ x → r ∈ clobbered x → v ∉ clobbered x →
    .unknown ∈ P ∧ ∀ o ∈ st.atOrEmpty v, o ∈ Q

/-- With the same origins in both cases a statement leaves a variable the same. -/
theorem BoundTo.leavesAlike_of_eq (h : BoundTo ⟨f, st⟩ r s t) (hv : v ≠ r)
    (heq : (transfer f st (x.rename (replacing r s))).atOrEmpty v = (transfer f st x).atOrEmpty v) :
    LeavesAlike f st r s t x v ((transfer f st x).atOrEmpty v) ((transfer f st (x.rename (replacing r s))).atOrEmpty v) := by
  refine ⟨fun hroot => (h.readsAlike_assigned_iff hv hroot).2 ⟨fun o ho => ?_, fun o ho => ?_⟩, ?_⟩
  · rw [heq]
    exact mem_atOrEmpty_transfer.2 (.inl ⟨hroot, ho⟩)
  · rw [← heq]
    exact (h.mem_atOrEmpty_transfer_rename hv).2 (.inl ⟨hroot, ho⟩)
  · intro hvs hkept hr hobject
    refine ⟨?_, fun o ho => ?_⟩
    · rw [← heq]
      exact (h.mem_atOrEmpty_transfer_rename hv).2 (.inr ⟨hkept, .inl ⟨.inr ⟨hvs, hr⟩, rfl⟩⟩)
    · rw [heq]
      exact mem_atOrEmpty_transfer.2 (.inr ⟨hkept, .inr ⟨hobject, ho⟩⟩)

/-- A variable that a statement leaves the same has the same origins in both cases. -/
theorem BoundTo.mem_iff_of_leavesAlike (h : BoundTo ⟨f, st⟩ r s t) (hv : v ≠ r)
    (halike : LeavesAlike f st r s t x v ((transfer f st x).atOrEmpty v)
      ((transfer f st (x.rename (replacing r s))).atOrEmpty v)) :
    o ∈ (transfer f st (x.rename (replacing r s))).atOrEmpty v ↔ o ∈ (transfer f st x).atOrEmpty v := by
  constructor
  · intro ho
    rcases (h.mem_atOrEmpty_transfer_rename hv).1 ho with ⟨hroot, ho⟩ | ⟨hkept, ⟨hc, rfl⟩ | ⟨hc, ho⟩⟩
    · exact ((h.readsAlike_assigned_iff hv hroot).1 (halike.assigned hroot)).2 o ho
    · by_cases hobject : v ∈ clobbered x
      · exact mem_atOrEmpty_transfer.2 (.inr ⟨hkept, .inl ⟨hobject, rfl⟩⟩)
      · obtain ⟨hvs, hr⟩ := hc.resolve_left hobject
        exact (halike.clobbered hvs hkept hr hobject).1
    · exact mem_atOrEmpty_transfer.2 (.inr ⟨hkept, .inr ⟨fun hobject => hc (.inl hobject), ho⟩⟩)
  · intro ho
    rcases mem_atOrEmpty_transfer.1 ho with ⟨hroot, ho⟩ | ⟨hkept, ⟨hobject, rfl⟩ | ⟨hobject, ho⟩⟩
    · exact ((h.readsAlike_assigned_iff hv hroot).1 (halike.assigned hroot)).1 o ho
    · exact (h.mem_atOrEmpty_transfer_rename hv).2 (.inr ⟨hkept, .inl ⟨.inl hobject, rfl⟩⟩)
    · by_cases hc : v = s ∧ r ∈ clobbered x
      · exact (halike.clobbered hc.1 hkept hc.2 hobject).2 o ho
      · exact (h.mem_atOrEmpty_transfer_rename hv).2 (.inr ⟨hkept, .inr ⟨not_or.2 ⟨hobject, hc⟩, ho⟩⟩)

/-- Behind a statement a variable has the same entry with the object in place of the reference exactly if the statement leaves it the
same. -/
theorem BoundTo.get?_transfer_rename_iff (h : BoundTo ⟨f, st⟩ r s t) (hv : v ≠ r) :
    (transfer f st (x.rename (replacing r s))).get? v = (transfer f st x).get? v ↔
      LeavesAlike f st r s t x v ((transfer f st x).atOrEmpty v) ((transfer f st (x.rename (replacing r s))).atOrEmpty v) := by
  constructor
  · intro heq
    exact h.leavesAlike_of_eq hv (by rw [State.atOrEmpty, heq, State.atOrEmpty])
  · intro halike
    have hmem := fun o => h.mem_iff_of_leavesAlike hv halike (o := o)
    refine State.get?_eq_of_mem_iff hmem ?_
    rw [isSome_get?_transfer, isSome_get?_transfer, h.changedRoots_rename, mem_clobbered_replacing hv]
    refine or_congr_right' fun hroot => ⟨?_, Or.imp_left .inl⟩
    -- an object that is not assigned is unknown in both cases, if it becomes so through the reference
    rintro ((hobject | hc) | hold)
    · exact .inl hobject
    · obtain ⟨O, hO, -⟩ := State.mem_atOrEmpty.1 ((hmem .unknown).1 ((h.mem_atOrEmpty_transfer_rename hv).2
        (.inr ⟨fun hstrong => hroot ⟨true, hstrong⟩, .inl ⟨.inr hc, rfl⟩⟩)))
      exact (isSome_get?_transfer.1 (Option.isSome_of_eq_some hO)).resolve_left hroot
    · exact .inr hold

end

/-- A reference to a type is bound to a stack object of that type, and to nothing else. With the object in place of the reference
an expression has the same value, and the same address, exactly if the sources of these read alike, and behind a statement another
variable has the same entry exactly if the statement leaves it the same. -/
theorem transparent_iff (f : Function) (st : State) (h : BoundTo ⟨f, st⟩ r s t) :
    (∀ e : Expr,
      (value ⟨f, st⟩ (e.rename (replacing r s)) = value ⟨f, st⟩ e ↔
        ReadsAlike ⟨f, st⟩ r s t (sources e).value (value ⟨f, st⟩ e) (value ⟨f, st⟩ (e.rename (replacing r s)))) ∧
      (address ⟨f, st⟩ (e.rename (replacing r s)) = address ⟨f, st⟩ e ↔
        ReadsAlike ⟨f, st⟩ r s t (sources e).address (address ⟨f, st⟩ e) (address ⟨f, st⟩ (e.rename (replacing r s))))) ∧
    ∀ (x : Statement) (v : VarId), v ≠ r →
      ((transfer f st (x.rename (replacing r s))).get? v = (transfer f st x).get? v ↔
        LeavesAlike f st r s t x v ((transfer f st x).atOrEmpty v)
          ((transfer f st (x.rename (replacing r s))).atOrEmpty v)) := by
  refine ⟨fun e => ?_, fun x v hv => h.get?_transfer_rename_iff hv⟩
  have hrenamed := places_given ⟨f, st⟩ (e.rename (replacing r s))
  rw [sources_rename] at hrenamed
  exact ⟨h.eq_iff_readsAlike (places_given _ e).value hrenamed.value, h.eq_iff_readsAlike (places_given _ e).address hrenamed.address⟩

/-- The type of the object that the reference below is bound to: a record, or a pointer. -/
def boundType (record : Bool) : CType := if record then .record "S" else .pointer (.char .char)

/-- A variable of that type as a pointer: the variable itself, or a member of it. -/
def pointerIn (record : Bool) (v : VarId) : Expr :=
  let whole : Expr := .var ⟨boundType record, .zero⟩ v
  if record then .member ⟨.pointer (.char .char), .zero⟩ whole "p" false else whole

/-- The address of the array is stored in the object. -/
def storeInObject (record : Bool) : Statement := ⟨.assign (pointerIn record 0) secondArray, .zero⟩

/-- The reference is declared to be the object. -/
def bindToObject (record : Bool) : Statement := ⟨.declare 2 (some (.var ⟨boundType record, .zero⟩ 0)), .zero⟩

/-- A function that stores the address of an array in an object, and returns it through a reference to the object. -/
def returnedThrough (record : Bool) : Graph where
  function :=
    { (default : Function) with
      returnType := .pointer (.char .char)
      vars :=
        [⟨0, "s", boundType record, .automatic, .localVar, false, .zero⟩,
         ⟨1, "x", .array (.char .char) (some 8), .automatic, .localVar, false, .zero⟩,
         ⟨2, "r", .reference (boundType record), .automatic, .localVar, false, .zero⟩]
      blocks :=
        [⟨0, [storeInObject record, bindToObject record, ⟨.jump ⟨.return, none, none, some (pointerIn record 2)⟩, .zero⟩], []⟩] }
  faultless := by cases record <;> rfl

/-- The state behind the declaration of the reference. -/
def behindBinding (record : Bool) : State :=
  let f := (returnedThrough record).function
  transfer f (transfer f .empty (storeInObject record)) (bindToObject record)

/-- The reference is bound to the object. -/
theorem boundTo_behindBinding (record : Bool) :
    BoundTo ⟨(returnedThrough record).function, behindBinding record⟩ 2 0 (boundType record) where
  reference := rfl
  object := ⟨_, rfl, rfl, rfl, by cases record <;> rfl⟩
  type := rfl
  bound := by cases record <;> decide +kernel

/-- A reference to a pointer is read and written as the pointer, and the leak through it is found. -/
theorem transparent_returnedThrough :
    BoundTo ⟨(returnedThrough false).function, behindBinding false⟩ 2 0 (boundType false) ∧
      value ⟨(returnedThrough false).function, behindBinding false⟩ ((pointerIn false 2).rename (replacing 2 0)) =
        value ⟨(returnedThrough false).function, behindBinding false⟩ (pointerIn false 2) ∧
      (transfer (returnedThrough false).function (behindBinding false) ((writeReference false).rename (replacing 2 0))).get? 0 =
        (transfer (returnedThrough false).function (behindBinding false) (writeReference false)).get? 0 ∧
      ⟨1, some 2, .returned .zero false⟩ ∈ (Dataflow.ofGraph (returnedThrough false)).leaks
        ((Dataflow.ofGraph (returnedThrough false)).run 100) := by
  obtain ⟨hread, hwrite⟩ := transparent_iff (returnedThrough false).function (behindBinding false) (boundTo_behindBinding false)
  refine ⟨boundTo_behindBinding false, (hread _).1.2 ⟨nofun, nofun⟩, ?_, ?_⟩
  · exact (hwrite _ 0 (by decide)).2 ⟨fun _ => ⟨nofun, nofun⟩, nofun⟩
  · change _ ∈ (OrdSet.toList _)
    decide +kernel

/-- A member of a record is read through a reference as the record itself: the leak of the record is found, which is none, and the
leak of the array is missed. -/
theorem not_transparent_returnedThrough :
    BoundTo ⟨(returnedThrough true).function, behindBinding true⟩ 2 0 (boundType true) ∧
      (pointerIn true 2).rename (replacing 2 0) = pointerIn true 0 ∧
      value ⟨(returnedThrough true).function, behindBinding true⟩ (pointerIn true 0) = .singleton (.stack 1) ∧
      value ⟨(returnedThrough true).function, behindBinding true⟩ (pointerIn true 2) = .singleton (.stack 0) ∧
      (Dataflow.ofGraph (returnedThrough true)).leaks ((Dataflow.ofGraph (returnedThrough true)).run 100) =
        .singleton ⟨0, some 2, .returned .zero false⟩ := by
  refine ⟨boundTo_behindBinding true, rfl, ?_, ?_, ?_⟩ <;> decide +kernel

end Frame

end FlowLint.Escape
