/-!
# Exact values of floating-point numbers

A finite floating-point number is `± m * 2 ^ q` for a natural number `m` and an
integer `q`.  `Binary.ofFloat` reads these off the bits, so that the printers
can work in exact arithmetic.
-/

namespace Cosim.Decimal

/-- What a floating-point number is. -/
inductive Binary where
  | nan
  | infinite (negative : Bool)
  /-- The number `± mantissa * 2 ^ exponent`. -/
  | finite (negative : Bool) (mantissa : Nat) (exponent : Int)
deriving DecidableEq, Repr, Inhabited

/-- The value that 64 bits stand for. -/
def Binary.ofBits (bits : UInt64) : Binary :=
  let n := bits.toNat
  let negative : Bool := n / Nat.pow 2 63 == 1
  let biased : Nat := n / Nat.pow 2 52 % Nat.pow 2 11
  let fraction : Nat := n % Nat.pow 2 52
  if biased = 2047 then
    if fraction = 0 then .infinite negative else .nan
  else if biased = 0 then .finite negative fraction (-1074)
  else .finite negative (Nat.pow 2 52 + fraction) ((biased : Int) - 1075)

/-- The value of a floating-point number. -/
def Binary.ofFloat (x : Float) : Binary := .ofBits x.toBits

end Cosim.Decimal
