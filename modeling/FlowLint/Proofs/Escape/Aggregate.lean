import FlowLint.Proofs.Escape.Monotone
import FlowLint.Proofs.Escape.Objects

/-!
# Parts of aggregates

The pointers in an aggregate are tracked as one. A place that is reached from a variable through members and elements has the
address of the variable, and writing it is a weak update of the variable (`assignedRoots_of_rootVar?`). It is read as the variable
only if it is a member or an element of the variable itself, so that what is stored deeper is not read back (`readsBack_iff`). A
reference that is bound to a part has the address of the whole variable, and writing the reference replaces what the other parts
held (`mem_write_bound_iff`).
-/

namespace FlowLint.Escape

open FlowLint.Flow FlowLint.Escape.Frame

/-- A pointer is no array. -/
theorem isArray_of_isPointer {t : CType} (h : t.isPointer = true) : t.isArray = false := by
  unfold CType.isPointer at h
  unfold CType.isArray
  cases hr : t.referent <;> simp [hr] at h ⊢

namespace Frame

variable {fr : Frame} {f : Function} {s : State} {v r : VarId}

/-! ## Places -/

/-- The number of members and elements that an expression goes through, from its variable on. -/
def steps : Expr → Nat
  | .cast _ a => steps a
  | .member _ a _ false => steps a + 1
  | .index _ a _ => steps a + 1
  | _ => 0

/-- The types of an expression and of what is under the casts around it. -/
def castTypes : Expr → List CType
  | .cast n a => n.type :: castTypes a
  | e => [e.type]

/-- A place designates the object of its variable. -/
theorem address_of_rootVar? : ∀ {e : Expr}, rootVar? e = some v → fr.address e = fr.varAddress v
  | .cast _ a, h => address_of_rootVar? (e := a) h
  | .var _ w, h => by
    obtain rfl : w = v := Option.some.inj h
    rfl
  | .member _ a _ false, h => address_of_rootVar? (e := a) h
  | .index n a i, h => by
    unfold rootVar? at h
    split at h
    · rename_i ha
      have haddress : fr.address (.index n a i) = fr.address a := by
        unfold address
        rw [places, ha]
        rfl
      rw [haddress]
      exact address_of_rootVar? h
    · cases h

/-- Writing a place is an update of its variable, and a weak one if the place is a part of it. -/
theorem assignedRoots_of_rootVar? (hv : isReferenceIn fr.function v = false) :
    ∀ {e : Expr}, rootVar? e = some v → fr.assignedRoots e = [(v, steps e == 0)]
  | .cast _ a, h => assignedRoots_of_rootVar? hv (e := a) h
  | .var _ w, h => by
    obtain rfl : w = v := Option.some.inj h
    rw [assignedRoots, isReference_eq, hv]
    rfl
  | .member _ a _ false, h => by
    rw [assignedRoots, assignedRoots_of_rootVar? hv (e := a) h]
    rfl
  | .index _ a _, h => by
    unfold rootVar? at h
    split at h
    · rename_i ha
      rw [assignedRoots, if_pos ha, assignedRoots_of_rootVar? hv h]
      rfl
    · cases h

/-- A place names its variable if it goes through no member and no element. -/
theorem asVar_of_rootVar? : ∀ {e : Expr}, rootVar? e = some v → e.asVar = if steps e = 0 then some v else none
  | .cast _ a, h => asVar_of_rootVar? (e := a) h
  | .var _ _, h => h
  | .member _ _ _ false, _ => rfl
  | .index _ _ _, _ => rfl

theorem aggregateValue_of_rootVar? {e : Expr} (h : rootVar? e = some v) :
    fr.aggregateValue e = if steps e = 0 then fr.tracked v else .singleton .unknown := by
  unfold aggregateValue
  rw [asVar_of_rootVar? h]
  by_cases hs : steps e = 0
  · rw [if_pos hs, if_pos hs]
  · rw [if_neg hs, if_neg hs]

/-- A part of a variable that is no array is read as the variable if it is a member or an element of the variable itself, and as
unknown if it is one of a part. -/
theorem value_of_rootVar? : ∀ {e : Expr}, rootVar? e = some v → 0 < steps e → (∀ t ∈ castTypes e, t.isArray = false) →
    fr.value e = if steps e = 1 then fr.tracked v else .singleton .unknown
  | .cast n a, h, hs, ht => by
    have hn : n.type.isArray = false := ht n.type List.mem_cons_self
    have hvalue : fr.value (.cast n a) = fr.value a := by
      unfold value
      rw [places, decay, hn]
      rfl
    rw [hvalue]
    exact value_of_rootVar? h hs fun t hmem => ht t (List.mem_cons_of_mem _ hmem)
  | .member n a field false, h, _, ht => by
    have hn : n.type.isArray = false := ht n.type List.mem_cons_self
    have hvalue : fr.value (.member n a field false) = fr.aggregateValue a := by
      unfold value
      rw [places, decay, hn]
      rfl
    rw [hvalue, aggregateValue_of_rootVar? (e := a) h]
    simp only [steps, Nat.add_eq_right]
  | .index n a i, h, _, ht => by
    have hn : n.type.isArray = false := ht n.type List.mem_cons_self
    unfold rootVar? at h
    split at h
    · rename_i ha
      have hvalue : fr.value (.index n a i) = fr.aggregateValue a := by
        unfold value
        rw [places, decay, hn, ha]
        rfl
      rw [hvalue, aggregateValue_of_rootVar? (e := a) h]
      simp only [steps, Nat.add_eq_right]
    · cases h

/-- Behind a write of a part a variable has the origins written and those it had, unless the write changes the variable in a way that
is not known as well. -/
theorem mem_write_part_iff {x : Statement} {e a : Expr} (hx : x.action = .assign e a) (hroot : rootVar? e = some v)
    (hsteps : 0 < steps e) (hv : isReferenceIn f v = false) {o : Origin} :
    o ∈ (transfer f s x).atOrEmpty v ↔
      o ∈ value ⟨f, s⟩ a ∨ (v ∈ clobbered x ∧ o = .unknown) ∨ (v ∉ clobbered x ∧ o ∈ s.atOrEmpty v) := by
  have hroots : changedRoots ⟨f, s⟩ x = [(v, false)] := by
    rw [changedRoots_of_assign hx, assignedRoots_of_rootVar? hv hroot, beq_false_of_ne (Nat.ne_of_gt hsteps)]
  rw [mem_atOrEmpty_transfer, hroots, newOrigins_of_assign hx]
  simp

/-! ## Reading back -/

/-- What is stored in a part of a variable, which is a pointer, is read back from it exactly if the part is a member or an element of
the variable itself, or nothing but unknown places is stored: deeper parts are read as unknown. -/
theorem readsBack_iff (f : Function) (s : State) {x : Statement} {e a : Expr} (hx : x.action = .assign e a)
    (hroot : rootVar? e = some v) (hsteps : 0 < steps e) (hv : isReferenceIn f v = false)
    (htype : ∀ t ∈ castTypes e, t.isPointer = true) :
    (∀ o ∈ value ⟨f, s⟩ a, o ∈ value ⟨f, transfer f s x⟩ e) ↔ steps e = 1 ∨ ∀ o ∈ value ⟨f, s⟩ a, o = .unknown := by
  have harray : ∀ t ∈ castTypes e, t.isArray = false := by
    intro t ht
    exact isArray_of_isPointer (htype t ht)
  rw [value_of_rootVar? hroot hsteps harray]
  by_cases hone : steps e = 1
  · rw [if_pos hone]
    refine iff_of_true (fun o ho => ?_) (.inl hone)
    obtain ⟨O, hO, hmem⟩ := State.mem_atOrEmpty.1 ((mem_write_part_iff hx hroot hsteps hv).2 (.inl ho))
    unfold tracked
    rw [hO]
    exact hmem
  · rw [if_neg hone, or_iff_right hone]
    exact forall₂_congr fun o _ => List.mem_singleton

/-- A member of the first variable, a record, or of a member of it; it is a pointer. -/
def memberOfFirst (deep : Bool) (field : String) : Expr :=
  let record : Expr := .var ⟨.record "S", .zero⟩ 0
  .member ⟨.pointer (.char .char), .zero⟩ (if deep then .member ⟨.record "T", .zero⟩ record "inner" false else record) field false

/-- The second variable, an array. -/
def secondArray : Expr := .var ⟨.array (.char .char) (some 8), .zero⟩ 1

/-- The variables of the functions below: a record, an array, and a reference to a pointer. -/
def recordArrayReference : List Variable :=
  [⟨0, "s", .record "S", .automatic, .localVar, false, .zero⟩,
   ⟨1, "x", .array (.char .char) (some 8), .automatic, .localVar, false, .zero⟩,
   ⟨2, "r", .reference (.pointer (.char .char)), .automatic, .localVar, false, .zero⟩]

/-- The address of the array is stored in a member. -/
def storeInMember (deep : Bool) : Statement := ⟨.assign (memberOfFirst deep "p") secondArray, .zero⟩

/-- A function that stores the address of an array in a member of a record, or in a member of a member, and returns that member. -/
def storedInMember (deep : Bool) : Graph where
  function :=
    { (default : Function) with
      returnType := .pointer (.char .char)
      vars := recordArrayReference
      blocks := [⟨0, [storeInMember deep, ⟨.jump ⟨.return, none, none, some (memberOfFirst deep "p")⟩, .zero⟩], []⟩] }
  faultless := by cases deep <;> rfl

/-- From a member of the record the address is read back, and the leak is found. -/
theorem readsBack_storedInMember :
    rootVar? (memberOfFirst false "p") = some 0 ∧ steps (memberOfFirst false "p") = 1 ∧
      .stack 1 ∈ value ⟨(storedInMember false).function, transfer (storedInMember false).function .empty (storeInMember false)⟩
        (memberOfFirst false "p") ∧
      ⟨1, some 0, .returned .zero false⟩ ∈ (Dataflow.ofGraph (storedInMember false)).leaks
        ((Dataflow.ofGraph (storedInMember false)).run 100) := by
  have hread := (readsBack_iff (storedInMember false).function .empty (x := storeInMember false) (v := 0) rfl rfl (by decide) rfl
    (by simp [castTypes, memberOfFirst, CType.isPointer, CType.referent, Expr.type, Expr.note])).2 (.inl rfl)
  refine ⟨rfl, rfl, hread _ (List.mem_singleton_self _), ?_⟩
  change _ ∈ (OrdSet.toList _)
  decide +kernel

/-- From a member of a member it is not, and the leak is missed. -/
theorem not_readsBack_storedInMember :
    .stack 1 ∈ value ⟨(storedInMember true).function, .empty⟩ secondArray ∧
      .stack 1 ∉ value ⟨(storedInMember true).function, transfer (storedInMember true).function .empty (storeInMember true)⟩
        (memberOfFirst true "p") ∧
      (Dataflow.ofGraph (storedInMember true)).leaks ((Dataflow.ofGraph (storedInMember true)).run 100) = .empty := by
  refine ⟨List.mem_singleton_self _, ?_, by decide +kernel⟩
  change _ ∉ (OrdSet.toList _)
  decide +kernel

/-! ## Writing through a reference to a part -/

/-- Casts around a target leave what an assignment to it changes. -/
theorem assignedRoots_peel : ∀ e : Expr, fr.assignedRoots e.peel = fr.assignedRoots e
  | .cast _ a => assignedRoots_peel a
  | .var _ _ | .global _ _ | .string _ _ _ | .int _ _ | .float _ _ | .nullptr _ | .addressOf _ _ | .deref _ _ | .member _ _ _ _
  | .index _ _ _ | .unary _ _ _ | .binary _ _ _ _ | .conditional _ _ _ _ | .call _ _ _ _ | .new _ | .other _ => rfl

/-- Writing a reference changes the variables it is bound to, and replaces what one of them held if it is bound to nothing else. -/
theorem mem_assignedRoots_reference {e : Expr} (he : e.asVar = some r) (hr : isReferenceIn fr.function r = true) {strong : Bool} :
    (v, strong) ∈ fr.assignedRoots e ↔ .stack v ∈ fr.tracked r ∧ (strong = true ↔ fr.tracked r = .singleton (.stack v)) := by
  have hroots : fr.assignedRoots e = (fr.tracked r).locals.map fun x => (x, (fr.tracked r).size == 1) := by
    rw [← assignedRoots_peel]
    unfold Expr.asVar at he
    split at he
    · rename_i n w hpeel
      obtain rfl := Option.some.inj he
      rw [hpeel, assignedRoots, isReference_eq, hr]
      rfl
    · cases he
  have hsize : .stack v ∈ fr.tracked r → ((fr.tracked r).size = 1 ↔ fr.tracked r = .singleton (.stack v)) := by
    intro hv
    constructor
    · intro hone
      refine (eq_of_subset_of_size_eq_one ⟨.stack v, List.mem_singleton_self _⟩ (fun o ho => ?_) hone).symm
      rw [List.mem_singleton.1 ho]
      exact hv
    · intro heq
      rw [heq]
      rfl
  rw [hroots, List.mem_map]
  constructor
  · rintro ⟨x, hx, heq⟩
    obtain ⟨rfl, rfl⟩ := Prod.mk.inj heq
    have hx := Origins.mem_locals.1 hx
    exact ⟨hx, by rw [beq_iff_eq]; exact hsize hx⟩
  · rintro ⟨hv, hstrong⟩
    refine ⟨v, Origins.mem_locals.2 hv, Prod.ext rfl (Bool.eq_iff_iff.2 ?_)⟩
    rw [beq_iff_eq, hsize hv, hstrong]

/-- Behind a write of a reference a variable has the origins written, if the reference is bound to it, and those it had, unless it is
bound to nothing else or the write changes the variable in a way that is not known as well. -/
theorem mem_write_reference_iff {x : Statement} {e a : Expr} (hx : x.action = .assign e a) (he : e.asVar = some r)
    (hr : isReferenceIn f r = true) {o : Origin} :
    o ∈ (transfer f s x).atOrEmpty v ↔
      (.stack v ∈ tracked ⟨f, s⟩ r ∧ o ∈ value ⟨f, s⟩ a) ∨
        (tracked ⟨f, s⟩ r ≠ .singleton (.stack v) ∧
          ((v ∈ clobbered x ∧ o = .unknown) ∨ (v ∉ clobbered x ∧ o ∈ s.atOrEmpty v))) := by
  have hroot : ∀ strong, (v, strong) ∈ changedRoots ⟨f, s⟩ x ↔
      .stack v ∈ tracked ⟨f, s⟩ r ∧ (strong = true ↔ tracked ⟨f, s⟩ r = .singleton (.stack v)) := by
    intro strong
    rw [changedRoots_of_assign hx, mem_assignedRoots_reference he hr]
  have hbound : (∃ strong, (v, strong) ∈ changedRoots ⟨f, s⟩ x) ↔ .stack v ∈ tracked ⟨f, s⟩ r := by
    simp only [hroot]
    refine ⟨fun ⟨_, hv, _⟩ => hv, fun hv => ?_⟩
    by_cases hone : tracked ⟨f, s⟩ r = .singleton (.stack v)
    · exact ⟨true, hv, iff_of_true rfl hone⟩
    · exact ⟨false, hv, iff_of_false Bool.false_ne_true hone⟩
  have hreplaced : (v, true) ∈ changedRoots ⟨f, s⟩ x ↔ tracked ⟨f, s⟩ r = .singleton (.stack v) := by
    rw [hroot]
    refine ⟨fun h => h.2.1 rfl, fun h => ⟨?_, iff_of_true rfl h⟩⟩
    rw [h]
    exact List.mem_singleton_self _
  rw [mem_atOrEmpty_transfer, hbound, newOrigins_of_assign hx, hreplaced]

/-- A reference that is declared to be a place of a stack object is bound to the object as a whole. -/
theorem get?_transfer_bind {x : Statement} {e : Expr} (hx : x.action = .declare r (some e)) (hr : isReferenceIn f r = true)
    (hv : IsStackObject f v) (hroot : rootVar? e = some v) :
    (transfer f s x).get? r = some (.singleton (.stack v)) := by
  have hnew : newOrigins ⟨f, s⟩ x = .singleton (.stack v) := by
    rw [newOrigins_of_declare_reference hx hr, address_of_rootVar? hroot, varAddress_of_isStackObject hv]
  rw [transfer_eq, changedRoots_of_declare hx, hnew]
  change (applyUpdate _ ⟨r, _, true⟩).get? r = _
  rw [State.get?_applyUpdate, if_pos rfl]
  rfl

/-- A statement leaves what a reference is bound to: it does not declare it, and does not change it in a way that is not known. -/
def LeavesBound (r : VarId) (x : Statement) : Prop := r ∉ clobbered x ∧ ∀ e, x.action ≠ .declare r (some e)

/-- No assignment changes the entry of a reference, in a state that names stack objects alone. -/
theorem not_mem_assignedRoots_of_proper (hs : s.Proper f) (hr : isReferenceIn f r = true) :
    ∀ {e : Expr} {strong : Bool}, (r, strong) ∉ assignedRoots ⟨f, s⟩ e
  | .cast _ a, _ => not_mem_assignedRoots_of_proper hs hr (e := a)
  | .var _ w, _ => by
    intro hmem
    unfold assignedRoots at hmem
    rw [isReference_eq] at hmem
    split at hmem
    · obtain ⟨x, hx, heq⟩ := List.mem_map.1 hmem
      obtain ⟨rfl, -⟩ := Prod.mk.inj heq
      have hobject := hs.tracked w x (Origins.mem_locals.1 hx)
      rw [isReferenceIn_of_isStackObject hobject] at hr
      cases hr
    · rename_i hw
      obtain ⟨rfl, -⟩ := Prod.mk.inj (List.mem_singleton.1 hmem)
      exact hw hr
  | .member _ a _ false, _ => by
    intro hmem
    obtain ⟨⟨w, strong⟩, hw, heq⟩ := List.mem_map.1 hmem
    have hwr : w = r := congrArg Prod.fst heq
    exact not_mem_assignedRoots_of_proper hs hr (hwr ▸ hw)
  | .index _ a _, _ => by
    intro hmem
    unfold assignedRoots at hmem
    split at hmem
    · obtain ⟨⟨w, strong⟩, hw, heq⟩ := List.mem_map.1 hmem
      have hwr : w = r := congrArg Prod.fst heq
      exact not_mem_assignedRoots_of_proper hs hr (hwr ▸ hw)
    · cases hmem
  | .member _ _ _ true, _ | .global _ _, _ | .string _ _ _, _ | .int _ _, _ | .float _ _, _ | .nullptr _, _ | .addressOf _ _, _
  | .deref _ _, _ | .unary _ _ _, _ | .binary _ _ _ _, _ | .conditional _ _ _ _, _ | .call _ _ _ _, _ | .new _, _
  | .other _, _ => List.not_mem_nil

/-- What a reference is bound to stays, in a state that names stack objects alone. -/
theorem get?_transfer_of_leavesBound (hs : s.Proper f) (hr : isReferenceIn f r = true) {x : Statement} (hx : LeavesBound r x) :
    (transfer f s x).get? r = s.get? r := by
  have hroots : ∀ strong, (r, strong) ∉ changedRoots ⟨f, s⟩ x := by
    intro strong hmem
    unfold changedRoots at hmem
    split at hmem
    · rename_i v e hact
      obtain ⟨rfl, -⟩ := Prod.mk.inj (List.mem_singleton.1 hmem)
      exact hx.2 e hact
    · exact not_mem_assignedRoots_of_proper hs hr hmem
    · cases hmem
  exact get?_transfer_of_not_mem hroots hx.1

theorem get?_foldl_transfer_of_leavesBound (hs : s.Proper f) (hr : isReferenceIn f r = true) {l : List Statement}
    (hl : ∀ x ∈ l, LeavesBound r x) : (l.foldl (transfer f) s).get? r = s.get? r := by
  induction l generalizing s with
  | nil => rfl
  | cons x l ih =>
    rw [List.forall_mem_cons] at hl
    rw [List.foldl_cons, ih (hs.transfer x) hl.2, get?_transfer_of_leavesBound hs hr hl.1]

/-- A reference is declared to be a part of a stack object, and then, after some other statements, it is written. Behind the
declaration the reference is bound to the object alone, and it stays so if the statements leave it. The object keeps an origin exactly
if that is written and the reference is bound to the object, or the reference is not bound to the object alone and the write does
not lose the origin by changing the object in a way that is not known. A write of the part itself keeps it unless it loses it in that
way. -/
theorem mem_write_bound_iff (f : Function) (s : State) {bind write : Statement} {part target a : Expr}
    (hbind : bind.action = .declare r (some part)) (hr : isReferenceIn f r = true) (hv : IsStackObject f v)
    (hroot : rootVar? part = some v) (hsteps : 0 < steps part) (hwrite : write.action = .assign target a)
    (htarget : target.asVar = some r) (between : List Statement) :
    (transfer f s bind).get? r = some (.singleton (.stack v)) ∧
    ∀ t, t = between.foldl (transfer f) (transfer f s bind) →
      (s.Proper f → (∀ x ∈ between, LeavesBound r x) → t.get? r = some (.singleton (.stack v))) ∧
      ∀ o ∈ t.atOrEmpty v,
        (o ∈ (transfer f t write).atOrEmpty v ↔
          (.stack v ∈ tracked ⟨f, t⟩ r ∧ o ∈ value ⟨f, t⟩ a) ∨
            (tracked ⟨f, t⟩ r ≠ .singleton (.stack v) ∧ (v ∈ clobbered write → o = .unknown))) ∧
        ∀ direct : Statement, direct.action = .assign part a →
          (o ∈ (transfer f t direct).atOrEmpty v ↔ o ∈ value ⟨f, t⟩ a ∨ (v ∈ clobbered direct → o = .unknown)) := by
  have hbound := get?_transfer_bind (s := s) hbind hr hv hroot
  refine ⟨hbound, ?_⟩
  rintro t ht
  refine ⟨fun hs hl => ?_, fun o ho => ?_⟩
  · rw [ht, get?_foldl_transfer_of_leavesBound (hs.transfer bind) hr hl, hbound]
  · -- what is there before a write is kept or becomes unknown
    have hkept : ∀ l : List VarId, (v ∈ l ∧ o = .unknown) ∨ (v ∉ l ∧ o ∈ t.atOrEmpty v) ↔ (v ∈ l → o = .unknown) := by
      intro l
      by_cases hl : v ∈ l
      · simp [hl]
      · simp [hl, ho]
    constructor
    · rw [mem_write_reference_iff hwrite htarget hr, hkept]
    · intro direct hdirect
      rw [mem_write_part_iff hdirect hroot hsteps (isReferenceIn_of_isStackObject hv), hkept]

/-- The reference is declared to be another member of the record. -/
def bindToMember : Statement := ⟨.declare 2 (some (memberOfFirst false "q")), .zero⟩

/-- The address of the array is written to the reference, or nothing is. -/
def writeReference (again : Bool) : Statement :=
  ⟨.assign (.var ⟨.reference (.pointer (.char .char)), .zero⟩ 2) (if again then secondArray else .nullptr ⟨.nullptr, .zero⟩), .zero⟩

/-- A function that stores the address of an array in a member of a record, writes another member through a reference, and returns
the first member. -/
def writtenBeside (again : Bool) : Graph where
  function :=
    { (default : Function) with
      returnType := .pointer (.char .char)
      vars := recordArrayReference
      blocks :=
        [⟨0, [storeInMember false, bindToMember, writeReference again,
          ⟨.jump ⟨.return, none, none, some (memberOfFirst false "p")⟩, .zero⟩], []⟩] }
  faultless := by cases again <;> rfl

/-- The state in front of the write. -/
def beforeWrite (again : Bool) : State :=
  let f := (writtenBeside again).function
  transfer f (transfer f .empty (storeInMember false)) bindToMember

/-- The record has the address in front of the write. -/
theorem mem_beforeWrite (again : Bool) : .stack 1 ∈ (beforeWrite again).atOrEmpty 0 := by
  change _ ∈ (OrdSet.toList _)
  cases again <;> decide +kernel

/-- If the address is written again, the record keeps it, and the leak is found. -/
theorem mem_write_writtenBeside :
    isReferenceIn (writtenBeside true).function 2 = true ∧ IsStackObject (writtenBeside true).function 0 ∧
      rootVar? (memberOfFirst false "q") = some 0 ∧ 0 < steps (memberOfFirst false "q") ∧
      (beforeWrite true).get? 2 = some (.singleton (.stack 0)) ∧
      .stack 1 ∈ (transfer (writtenBeside true).function (beforeWrite true) (writeReference true)).atOrEmpty 0 ∧
      ⟨1, some 0, .returned .zero false⟩ ∈ (Dataflow.ofGraph (writtenBeside true)).leaks
        ((Dataflow.ofGraph (writtenBeside true)).run 100) := by
  have hv : IsStackObject (writtenBeside true).function 0 := ⟨_, rfl, rfl, rfl, rfl⟩
  have hbind : bindToMember.action = .declare 2 (some (memberOfFirst false "q")) := rfl
  have hassign : (writeReference true).action = .assign (.var ⟨.reference (.pointer (.char .char)), .zero⟩ 2) secondArray := rfl
  obtain ⟨hbound, hwrite⟩ := mem_write_bound_iff (writtenBeside true).function
    (transfer (writtenBeside true).function .empty (storeInMember false)) hbind rfl hv rfl (by decide) hassign rfl []
  have htracked : .stack 0 ∈ tracked ⟨(writtenBeside true).function, beforeWrite true⟩ 2 :=
    State.mem_tracked_stack.2 (State.mem_atOrEmpty.2 ⟨_, hbound, List.mem_singleton_self _⟩)
  have hkept := ((hwrite (beforeWrite true) rfl).2 _ (mem_beforeWrite true)).1.2 (.inl ⟨htracked, List.mem_singleton_self _⟩)
  refine ⟨rfl, hv, rfl, by decide, hbound, hkept, ?_⟩
  change _ ∈ (OrdSet.toList _)
  decide +kernel

/-- If nothing is written to the other member, the record loses the address in the first one, and the leak is missed. -/
theorem not_mem_write_writtenBeside :
    .stack 1 ∈ (beforeWrite false).atOrEmpty 0 ∧
      .stack 1 ∉ (transfer (writtenBeside false).function (beforeWrite false) (writeReference false)).atOrEmpty 0 ∧
      (Dataflow.ofGraph (writtenBeside false)).leaks ((Dataflow.ofGraph (writtenBeside false)).run 100) = .empty := by
  refine ⟨mem_beforeWrite false, ?_, by decide +kernel⟩
  change _ ∉ (OrdSet.toList _)
  decide +kernel

end Frame

end FlowLint.Escape
