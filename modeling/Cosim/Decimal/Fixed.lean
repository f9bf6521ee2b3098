import Cosim.Decimal.Binary

/-!
# Fixed-point text

`fixed places x` writes `x` with a fixed number of decimal places.  The exact
binary value is rounded to the nearest multiple of the last place, and a value
half way between two of them goes to the even one.
-/

namespace Cosim.Decimal

/-- The quotient rounded to the nearest integer, a half to the even neighbour. -/
def roundDiv (num den : Nat) : Nat :=
  let q := num / den
  let r := num % den
  if 2 * r < den then q
  else if den < 2 * r then q + 1
  else q + q % 2

/-- A natural number of units in the last of `places` places, with its point. -/
private def placed (places units : Nat) : String :=
  let digits := (Nat.toDigits 10 units)
  let digits := List.replicate (places + 1 - digits.length) '0' ++ digits
  let whole := digits.take (digits.length - places)
  if places = 0 then String.ofList whole
  else String.ofList whole ++ "." ++ String.ofList (digits.drop (digits.length - places))

/-- A number with a fixed number of decimal places. -/
def fixed (places : Nat) (x : Float) : String :=
  match Binary.ofFloat x with
  | .nan => "NaN"
  | .infinite negative => if negative then "-Inf" else "+Inf"
  | .finite negative m q =>
    let scaled := m * Nat.pow 10 places
    let units :=
      if 0 ≤ q then scaled * Nat.pow 2 q.toNat else roundDiv scaled (Nat.pow 2 (-q).toNat)
    (if negative then "-" else "") ++ placed places units

end Cosim.Decimal
