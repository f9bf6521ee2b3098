import Cosim.Decimal.Binary
import Cosim.Decimal.Fixed
import Cosim.Numeral

/-!
# Reading decimal numbers

A decimal text is rounded to the nearest floating-point number, a half to the
even neighbour.  Texts too large for any finite number are refused.
-/

namespace Cosim.Decimal

/-- The floating-point number nearest to `num / den`, or `none` if that is too
large. -/
def Binary.ofRatio (negative : Bool) (num den : Nat) : Option Binary :=
  if num = 0 then some (.finite negative 0 (-1074))
  else
    let guess : Int := (num.log2 : Int) - den.log2
    -- `2 ^ e ≤ num / den < 2 ^ (e + 1)`
    let below : Bool :=
      if 0 ≤ guess then num < den * Nat.pow 2 guess.toNat else num * Nat.pow 2 (-guess).toNat < den
    let e := if below then guess - 1 else guess
    let q := max (e - 52) (-1074)
    let m :=
      if 0 ≤ q then roundDiv num (den * Nat.pow 2 q.toNat)
      else roundDiv (num * Nat.pow 2 (-q).toNat) den
    let (m, q) := if m = Nat.pow 2 53 then (Nat.pow 2 52, q + 1) else (m, q)
    if 971 < q then none else some (.finite negative m q)

/-- The integer part of a finite number, towards zero. -/
def truncate (negative : Bool) (m : Nat) (q : Int) : Int :=
  let size : Nat := if 0 ≤ q then m * Nat.pow 2 q.toNat else m / Nat.pow 2 (-q).toNat
  if negative then -(size : Int) else size

private def natOf (digits : List Char) : Nat :=
  digits.foldl (fun n c => n * 10 + (c.toNat - '0'.toNat)) 0

/-- The number `digits * 10 ^ e`; exponents far out of range are cut short. -/
private def ofDigits (negative : Bool) (digits : List Char) (e : Int) : Option Binary :=
  let digits := digits.dropWhile (· == '0')
  let size := e + digits.length
  if digits.isEmpty || size < -400 then some (.finite negative 0 (-1074))
  else if 400 < size then none
  else if 0 ≤ e then Binary.ofRatio negative (natOf digits * Nat.pow 10 e.toNat) 1
  else Binary.ofRatio negative (natOf digits) (Nat.pow 10 (-e).toNat)

private def isDigitOrGap (c : Char) : Bool := c.isDigit || c == '_'

/-- The exponent part of a decimal text. -/
private def readExponent : List Char → Option Int
  | [] => some 0
  | c :: rest =>
    if c ≠ 'e' ∧ c ≠ 'E' then none
    else
      let (negative, digits) := match rest with
        | '-' :: r => (true, r)
        | '+' :: r => (false, r)
        | _ => (false, rest)
      if digits.all isDigitOrGap && (digits.head?.any Char.isDigit) then
        let e : Nat := natOf ((digits.filter Char.isDigit).take 400)
        some (if negative then -(e : Int) else e)
      else none

/-- Read a decimal text: a sign, digits with an optional point, an exponent.
Underscores may separate digits. -/
def read? (cs : List Char) : Option Binary :=
  let (negative, body) := match cs with
    | '-' :: r => (true, r)
    | '+' :: r => (false, r)
    | _ => (false, cs)
  let whole := body.takeWhile isDigitOrGap
  let rest := body.dropWhile isDigitOrGap
  let (fraction, rest) := match rest with
    | '.' :: r => (r.takeWhile isDigitOrGap, r.dropWhile isDigitOrGap)
    | _ => ([], rest)
  let whole := whole.filter Char.isDigit
  let fraction := fraction.filter Char.isDigit
  if whole.isEmpty && fraction.isEmpty then none
  else if cs.contains '_' && !Numeral.underscoresOk cs then none
  else
    match readExponent rest with
    | none => none
    | some e => ofDigits negative (whole ++ fraction) (e - fraction.length)

end Cosim.Decimal
