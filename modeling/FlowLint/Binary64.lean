/-!
# Binary floating-point numbers

Finite numbers with a 53-bit mantissa, in exact integer arithmetic. `nearest` rounds a quotient, ties to the even
mantissa; `ofDecimal?` reads a significand and a power of ten as one rounding of each and one of their product or quotient;
`shortest` finds the fewest decimal digits that lie in the interval of numbers that round to the given one, and `text`
writes them: positional from `1e-5` to below `1e16`, scientific beyond.
-/

namespace FlowLint

/-- The number `mantissa * 2 ^ exponent`, negated if `negative`. -/
structure Binary64 where
  negative : Bool
  mantissa : Nat
  exponent : Int
deriving DecidableEq, Repr, Inhabited

namespace Binary64

/-- The exponent of the smallest numbers. -/
def minExponent : Int := -1074

/-- The exponent of the largest numbers. -/
def maxExponent : Int := 971

/-- Zero, with a sign. -/
def zero (negative : Bool) : Binary64 := ⟨negative, 0, minExponent⟩

/-- The number with its sign set. -/
def signed (negative : Bool) (x : Binary64) : Binary64 := { x with negative }

/-- The integer nearest to `num / den`; a tie goes to the even neighbour. -/
def divNearest (num den : Nat) : Nat :=
  let quotient := num / den
  let twice := 2 * (num % den)
  if twice < den then quotient
  else if den < twice then quotient + 1
  else quotient + quotient % 2

/-- `num / den / 2 ^ e` as a fraction. -/
def scaleDown (num den : Nat) (e : Int) : Nat × Nat :=
  if 0 ≤ e then (num, den * Nat.pow 2 e.toNat) else (num * Nat.pow 2 (-e).toNat, den)

/-- The exponent at which `num / den` has a mantissa of 53 bits, or the smallest exponent if that is larger. -/
def exponentOf (num den : Nat) : Int :=
  let guess : Int := (num.log2 : Int) - den.log2 - 52
  let (n, d) := scaleDown num den guess
  max minExponent (if n < d * Nat.pow 2 52 then guess - 1 else guess)

/-- The number nearest to `num / den`, or `none` if it is too large. -/
def nearest (num den : Nat) : Option Binary64 :=
  if num = 0 then some (zero false)
  else
    let e := exponentOf num den
    let (n, d) := scaleDown num den e
    let m := divNearest n d
    let (m, e) := if m = Nat.pow 2 53 then (Nat.pow 2 52, e + 1) else (m, e)
    if maxExponent < e then none else some ⟨false, m, e⟩

/-- The magnitude as a fraction. -/
def fraction (x : Binary64) : Nat × Nat :=
  scaleDown x.mantissa 1 (-x.exponent)

/-- The rounded product of two magnitudes. -/
def mul (x y : Binary64) : Option Binary64 :=
  nearest (x.fraction.1 * y.fraction.1) (x.fraction.2 * y.fraction.2)

/-- The rounded quotient of two magnitudes, of which the second is not zero. -/
def div (x y : Binary64) : Option Binary64 :=
  nearest (x.fraction.1 * y.fraction.2) (x.fraction.2 * y.fraction.1)

/-- The largest power of ten that is used in one operation. -/
def maxPower : Nat := 308

/-- `x * 10 ^ e`, in one multiplication or division by a rounded power of ten for `|e| ≤ 308`. A smaller exponent is
reached by at most two divisions by `10 ^ 308`, after which every number is zero; a larger one leaves the range. -/
def scaleTen (x : Binary64) (e : Int) : Option Binary64 :=
  if 0 ≤ e then
    if x.mantissa = 0 then some x
    else if e.toNat ≤ maxPower then (nearest (Nat.pow 10 e.toNat) 1).bind x.mul
    else none
  else go 3 x (-e).toNat
where
  go : Nat → Binary64 → Nat → Option Binary64
    | 0, _, _ => some (zero false)
    | fuel + 1, x, down =>
      if down ≤ maxPower then (nearest (Nat.pow 10 down) 1).bind x.div
      else do
        let power ← nearest (Nat.pow 10 maxPower) 1
        let y ← x.div power
        if y.mantissa = 0 then some y else go fuel y (down - maxPower)

/-- The number written as `significand * 10 ^ e`, or `none` if it is too large. -/
def ofDecimal? (significand : Nat) (e : Int) : Option Binary64 :=
  (nearest significand 1).bind fun x => x.scaleTen e

/-- The number nearest to an integer of at most 64 bits. -/
def ofInt (n : Int) : Binary64 :=
  ((nearest n.natAbs 1).getD (zero false)).signed (n < 0)

/-- Whether a fraction rounds to the magnitude of `x`: it lies between the midpoints to the neighbours, and on a midpoint
only if the mantissa is even. -/
def roundsTo (x : Binary64) (num den : Nat) : Bool :=
  let (n, d) := scaleDown num den (x.exponent - 2)
  let low := if x.mantissa = Nat.pow 2 52 ∧ minExponent < x.exponent then 4 * x.mantissa - 1 else 4 * x.mantissa - 2
  let high := 4 * x.mantissa + 2
  if x.mantissa % 2 = 0 then low * d ≤ n && n ≤ high * d else low * d < n && n < high * d

/-- `m * 10 ^ e` as a fraction. -/
def decimalFraction (m : Nat) (e : Int) : Nat × Nat :=
  if 0 ≤ e then (m * Nat.pow 10 e.toNat, 1) else (m, Nat.pow 10 (-e).toNat)

/-- The multiple of `10 ^ e` nearest to the magnitude among those that round to it; a tie goes to the even one. -/
def onGrid (x : Binary64) (e : Int) : Option Nat :=
  let (p, q) := x.fraction
  let (n, d) := if 0 ≤ e then (p, q * Nat.pow 10 e.toNat) else (p * Nat.pow 10 (-e).toNat, q)
  let nearestPoint := divNearest n d
  let hit (m : Nat) : Bool := x.roundsTo (decimalFraction m e).1 (decimalFraction m e).2
  if hit nearestPoint then some nearestPoint
  else if hit (n / d) then some (n / d)
  else if hit (n / d + 1) then some (n / d + 1)
  else none

/-- The power of ten of the leading digit of a nonzero magnitude. -/
def leadingPower (x : Binary64) : Int :=
  let (p, q) := x.fraction
  if q ≤ p then ((Nat.toDigits 10 (p / q)).length : Int) - 1
  else
    let up := (Nat.toDigits 10 (q / p)).length
    if q ≤ p * Nat.pow 10 (up - 1) then 1 - (up : Int) else -(up : Int)

/-- The shortest decimal that rounds to a nonzero magnitude: its digits without trailing zeros, and its power of ten. -/
def shortest (x : Binary64) : Nat × Int :=
  match (List.range 17).findSome? fun (n : Nat) =>
      (onGrid x (x.leadingPower - n)).map fun m => (m, x.leadingPower - n) with
  | some (m, e) => strip 18 m e
  | none => (0, 0)
where
  strip : Nat → Nat → Int → Nat × Int
    | 0, m, e => (m, e)
    | fuel + 1, m, e => if m ≠ 0 ∧ m % 10 = 0 then strip fuel (m / 10) (e + 1) else (m, e)

/-- The digits of a decimal `m * 10 ^ e` with a point or an exponent. -/
def layout (digits : List Char) (e : Int) : List Char :=
  let point : Int := digits.length + e
  if 0 ≤ e ∧ point ≤ 16 then digits ++ List.replicate e.toNat '0' ++ ['.', '0']
  else if 0 < point ∧ point ≤ 16 then digits.take point.toNat ++ '.' :: digits.drop point.toNat
  else if -5 < point ∧ point ≤ 0 then '0' :: '.' :: List.replicate (-point).toNat '0' ++ digits
  else
    let power := 'e' :: (toString (point - 1)).toList
    match digits with
    | [d] => d :: power
    | d :: rest => d :: '.' :: rest ++ power
    | [] => power

/-- The shortest text that reads back as the number. -/
def text (x : Binary64) : List Char :=
  let sign := if x.negative then ['-'] else []
  if x.mantissa = 0 then sign ++ ['0', '.', '0']
  else sign ++ layout (Nat.toDigits 10 x.shortest.1) x.shortest.2

end Binary64

end FlowLint
