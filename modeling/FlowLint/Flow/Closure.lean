/-!
# Closure under steps

What is reached from some numbers by steps of an adjacency function, found in rounds that each add the steps that lead to
something new. Among `n` numbers `n` rounds are enough.
-/

namespace FlowLint.Flow

/-- The numbers that are seen, and all that are reached from them in at most `rounds` rounds. -/
def closure (next : Nat → List Nat) (rounds : Nat) (seen : List Nat) : List Nat :=
  match rounds with
  | 0 => seen
  | rounds + 1 =>
    let new := ((seen.flatMap next).filter fun y => !seen.contains y).eraseDups
    if new.isEmpty then seen else closure next rounds (seen ++ new)

/-- The numbers below `n` that are reached from a number, in ascending order. -/
def reached (next : Nat → List Nat) (n : Nat) (start : Nat) : List Nat :=
  let seen := closure next n [start]
  (List.range n).filter seen.contains

end FlowLint.Flow
