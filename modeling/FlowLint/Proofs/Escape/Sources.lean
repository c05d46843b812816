import FlowLint.Proofs.Escape.Transfer

/-!
# Where the origins of an expression come from

The value and the address of an expression are unions: of origins that the expression has by itself, and of what its variables
give, read as a whole, in part, or as the objects they are. Which these are depends on the expression alone (`sources`), and what
each of them gives on the state alone (`given`), so that the origins of an expression are those that its sources give
(`mem_value_iff`, `mem_address_iff`).
-/

namespace FlowLint.Escape

namespace Frame

/-- One of the sources of a set of origins: no object, a place that is not known, the value of a variable, the pointers in a
variable one part of which is read, or the object that a variable designates. -/
inductive Source where
  | nowhere
  | unknown
  | whole (v : VarId)
  | part (v : VarId)
  | object (v : VarId)
deriving DecidableEq, Repr

/-- The origins that a source gives. -/
def given (fr : Frame) : Source → Origins
  | .nowhere => .singleton .nowhere
  | .unknown => .singleton .unknown
  | .whole v => fr.varValue v
  | .part v => fr.tracked v
  | .object v => fr.varAddress v

/-- The sources of the value and of the address of an expression. -/
structure Sources where
  value : List Source
  address : List Source

/-- The value of an array is its address. -/
def decaySources (note : Note) (value address : List Source) : Sources :=
  ⟨if note.type.isArray then address else value, address⟩

/-- What is read of an aggregate: a part of its variable, or a place that is not known. -/
def partSources (base : Expr) : List Source := [base.asVar.elim .unknown .part]

/-- The sources of an expression. -/
def sources : Expr → Sources
  | .var n v => decaySources n [.whole v] [.object v]
  | .global n _ => decaySources n [.unknown] [.nowhere]
  | .string n _ _ => decaySources n [.nowhere] [.nowhere]
  | .int n _ | .float n _ | .nullptr n => decaySources n [.nowhere] [.unknown]
  | .addressOf n a => decaySources n (sources a).address [.unknown]
  | .deref n a => decaySources n [.unknown] (sources a).value
  | .member n a _ arrow =>
    decaySources n (if arrow then [.unknown] else partSources a)
      (if arrow then (sources a).value else (sources a).address)
  | .index n a _ =>
    decaySources n (if a.type.isArray then partSources a else [.unknown])
      (if a.type.isArray then (sources a).address else (sources a).value)
  | .unary n op _ => decaySources n [if op.isIncrement then .unknown else .nowhere] [.unknown]
  | .binary n .comma _ b => decaySources n (sources b).value (sources b).address
  | .binary n _ _ _ => decaySources n [if n.type.isPointer then .unknown else .nowhere] [.unknown]
  | .cast n a => decaySources n (sources a).value (sources a).address
  | .conditional n _ a b =>
    decaySources n ((sources a).value ++ (sources b).value) ((sources a).address ++ (sources b).address)
  | .call n _ _ _ | .new n | .other n => decaySources n [.unknown] [.unknown]

/-! ## The origins of an expression -/

/-- A set of origins is what some sources give. -/
def IsGiven (fr : Frame) (A : Origins) (l : List Source) : Prop := ∀ o, o ∈ A ↔ ∃ x ∈ l, o ∈ fr.given x

variable {fr : Frame} {A B : Origins} {l m : List Source}

/-- One source gives what it gives. -/
theorem isGiven_singleton (fr : Frame) (x : Source) : fr.IsGiven (fr.given x) [x] := by
  intro o
  simp

/-- Sources of two sets give their union. -/
theorem IsGiven.union (hA : fr.IsGiven A l) (hB : fr.IsGiven B m) : fr.IsGiven (OrdSet.union A B) (l ++ m) := by
  intro o
  rw [OrdSet.mem_union, hA o, hB o]
  simp only [List.mem_append, or_and_right, exists_or]

/-- The places of an expression are what its sources give. -/
structure PlacesGiven (fr : Frame) (p : Places) (s : Sources) : Prop where
  value : fr.IsGiven p.value s.value
  address : fr.IsGiven p.address s.address

theorem PlacesGiven.decay {n : Note} (hv : fr.IsGiven A l) (ha : fr.IsGiven B m) :
    PlacesGiven fr (decay n A B) (decaySources n l m) := by
  refine ⟨?_, ha⟩
  unfold Frame.decay decaySources
  cases n.type.isArray
  · exact hv
  · exact ha

theorem isGiven_aggregateValue (fr : Frame) (a : Expr) : fr.IsGiven (fr.aggregateValue a) (partSources a) := by
  unfold aggregateValue partSources
  cases a.asVar with
  | none => exact isGiven_singleton fr .unknown
  | some v => exact isGiven_singleton fr (.part v)

/-- The sources of an expression give its places. -/
theorem places_given (fr : Frame) : ∀ e, PlacesGiven fr (fr.places e) (sources e)
  | .var _ v => .decay (isGiven_singleton fr (.whole v)) (isGiven_singleton fr (.object v))
  | .addressOf _ a => .decay (places_given fr a).address (isGiven_singleton fr .unknown)
  | .deref _ a => .decay (isGiven_singleton fr .unknown) (places_given fr a).value
  | .member _ a _ arrow => by
    cases arrow
    · exact .decay (isGiven_aggregateValue fr a) (places_given fr a).address
    · exact .decay (isGiven_singleton fr .unknown) (places_given fr a).value
  | .index _ a _ => by
    unfold places sources
    cases a.type.isArray
    · exact .decay (isGiven_singleton fr .unknown) (places_given fr a).value
    · exact .decay (isGiven_aggregateValue fr a) (places_given fr a).address
  | .binary n op a b => by
    cases op
    case comma => exact .decay (places_given fr b).value (places_given fr b).address
    all_goals
      refine .decay ?_ (isGiven_singleton fr .unknown)
      cases n.type.isPointer
      · exact isGiven_singleton fr .nowhere
      · exact isGiven_singleton fr .unknown
  | .cast _ a => .decay (places_given fr a).value (places_given fr a).address
  | .conditional _ _ a b =>
    .decay ((places_given fr a).value.union (places_given fr b).value)
      ((places_given fr a).address.union (places_given fr b).address)
  | .unary _ op _ => by
    refine .decay ?_ (isGiven_singleton fr .unknown)
    cases op.isIncrement
    · exact isGiven_singleton fr .nowhere
    · exact isGiven_singleton fr .unknown
  | .global _ _ => .decay (isGiven_singleton fr .unknown) (isGiven_singleton fr .nowhere)
  | .string _ _ _ => .decay (isGiven_singleton fr .nowhere) (isGiven_singleton fr .nowhere)
  | .int _ _ | .float _ _ | .nullptr _ => .decay (isGiven_singleton fr .nowhere) (isGiven_singleton fr .unknown)
  | .call _ _ _ _ | .new _ | .other _ => .decay (isGiven_singleton fr .unknown) (isGiven_singleton fr .unknown)

/-- The value of an expression has the origins that its sources give. -/
theorem mem_value_iff {e : Expr} {o : Origin} : o ∈ fr.value e ↔ ∃ x ∈ (sources e).value, o ∈ fr.given x :=
  (places_given fr e).value o

/-- The address of an expression has the origins that its sources give. -/
theorem mem_address_iff {e : Expr} {o : Origin} : o ∈ fr.address e ↔ ∃ x ∈ (sources e).address, o ∈ fr.given x :=
  (places_given fr e).address o

/-! ## Statements -/

/-- The sources of the origins that a statement assigns. -/
def newSources (f : Function) (x : Statement) : List Source :=
  match x.action with
  | .declare v (some init) => if isReferenceIn f v then (sources init).address else (sources init).value
  | .assign _ value => (sources value).value
  | _ => []

/-- A statement assigns the origins that its sources give. -/
theorem mem_newOrigins_iff {x : Statement} {o : Origin} :
    o ∈ fr.newOrigins x ↔ ∃ y ∈ newSources fr.function x, o ∈ fr.given y := by
  have hempty : o ∈ (OrdSet.empty : Origins) ↔ ∃ y ∈ ([] : List Source), o ∈ fr.given y := by
    simp only [List.not_mem_nil, false_and, exists_false, iff_false]
    exact List.not_mem_nil
  unfold newOrigins newSources
  cases x.action with
  | declare v init =>
    cases init with
    | none => exact hempty
    | some init =>
      dsimp only
      rw [isReference_eq]
      split
      · exact mem_address_iff
      · exact mem_value_iff
  | assign target value => exact mem_value_iff
  | call _ | jump _ | label _ _ | eval _ | empty | other => exact hempty

end Frame

end FlowLint.Escape
