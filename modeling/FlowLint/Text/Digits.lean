/-!
# Digits

Numbers written in digits of a radix, at most sixteen.
-/

namespace FlowLint.Text

/-- The value of a digit of a radix, in letters of either case above nine. -/
def digit? (radix : Nat) (c : Char) : Option Nat :=
  let value :=
    if '0' ≤ c ∧ c ≤ '9' then some (c.toNat - '0'.toNat)
    else if 'a' ≤ c ∧ c ≤ 'f' then some (c.toNat - 'a'.toNat + 10)
    else if 'A' ≤ c ∧ c ≤ 'F' then some (c.toNat - 'A'.toNat + 10)
    else none
  value.filter (· < radix)

/-- The value of digits, at least one. -/
def number? (radix : Nat) (cs : List Char) : Option Nat :=
  if cs.isEmpty then none
  else cs.foldlM (fun n c => (digit? radix c).map (n * radix + ·)) 0

/-- The 64-bit word written in decimal digits, with a plus sign in front if need be. -/
def word64? (text : String) : Option UInt64 :=
  let digits :=
    match text.toList with
    | '+' :: rest => rest
    | cs => cs
  ((number? 10 digits).filter (· < UInt64.size)).map UInt64.ofNat

end FlowLint.Text
