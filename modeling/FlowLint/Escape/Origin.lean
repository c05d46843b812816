import FlowLint.Ordered.Map
import FlowLint.Snapshot.Function

/-!
# Origins of pointers

Where a pointer may point: to no object of the frame, to a local variable, or to a place that is not known. A state gives the
variables of a function sets of origins at one point of its execution. A variable without a set differs from one with the
empty set.
-/

namespace FlowLint.Escape

/-- Where a pointer may point. -/
inductive Origin where
  | nowhere
  | stack (v : VarId)
  | unknown
deriving DecidableEq, Repr, Inhabited

namespace Origin

/-- An origin as it is written in reports. -/
def render : Origin → String
  | .nowhere => "none"
  | .stack v => "local(" ++ v.render ++ ")"
  | .unknown => "unknown"

/-- The local variable that an origin is. -/
def local? : Origin → Option VarId
  | .stack v => some v
  | _ => none

/-- Local variables come between no object and an unknown place, in the order of their numbers. -/
instance : Ord Origin where
  compare
    | .nowhere, .nowhere => .eq
    | .nowhere, _ => .lt
    | .stack _, .nowhere => .gt
    | .stack v, .stack w => compare v w
    | .stack _, .unknown => .lt
    | .unknown, .unknown => .eq
    | .unknown, _ => .gt

/-- Local variables are in the order of their numbers. -/
theorem compare_stack (v w : VarId) : compare (stack v) (stack w) = compare v w := rfl

instance : Std.TransOrd Origin where
  eq_swap {a b} := by
    cases a <;> cases b <;> try rfl
    rw [compare_stack, compare_stack]
    exact Std.OrientedOrd.eq_swap
  isLE_trans {a b c} h h' := by
    cases a <;> cases b <;> try cases h
    all_goals cases c <;> try cases h'
    all_goals first | rfl | (rw [compare_stack] at *; exact Std.TransOrd.isLE_trans h h')

instance : Std.LawfulEqOrd Origin where
  compare_self {a} := by
    cases a <;> try rfl
    rw [compare_stack]
    exact Std.ReflOrd.compare_self
  eq_of_compare {a b} h := by
    cases a <;> cases b <;> try cases h
    all_goals try rfl
    rw [compare_stack] at h
    rw [Std.LawfulEqOrd.eq_of_compare h]

end Origin

/-- A set of origins. -/
abbrev Origins := OrdSet Origin

/-- The local variables of a set of origins, in order. -/
def Origins.locals (s : Origins) : List VarId := s.toList.filterMap Origin.local?

/-- The origins of variables at one point. -/
abbrev State := OrdMap VarId Origins

namespace State

/-- The origins of a variable, empty if it has none. -/
def atOrEmpty (s : State) (v : VarId) : Origins := (s.get? v).getD .empty

/-- A strong update: the variable has these origins and no others. -/
def set (s : State) (v : VarId) (o : Origins) : State := s.insert v o

/-- A weak update: the variable has these origins besides those it had. -/
def extend (s : State) (v : VarId) (o : Origins) : State := s.alter v fun old => (old.getD .empty).union o

/-- The union of two states, variable by variable. -/
def join (s t : State) : State := t.entries.foldl (fun s e => s.extend e.1 e.2) s

/-- An entry of another state is joined into a state; the mark is set if the set of its variable gets larger. -/
def joinEntry (s : State × Bool) (e : VarId × Origins) : State × Bool :=
  let joined := s.1.extend e.1 e.2
  (joined, s.2 || (joined.atOrEmpty e.1).size != (s.1.atOrEmpty e.1).size)

/-- Whether a set gets larger in a join, which is marked while the entries are joined one after the other. -/
def growsBy (s t : State) : Bool := (t.entries.foldl joinEntry (s, false)).2

end State

end FlowLint.Escape
