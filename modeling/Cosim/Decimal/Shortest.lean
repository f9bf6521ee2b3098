import Cosim.Decimal.Binary

/-!
# Shortest decimal text

`shortest` finds the fewest decimal digits that still read back as a given
floating-point number, and of those the digits nearest to it.

A finite number `m * 2 ^ q` is what every real number of an interval around it
rounds to; the ends of the interval belong to it when `m` is even.  For one
digit, two digits and so on, the two neighbours of the number on the decimal
grid are tested against the interval, in exact arithmetic; the first grid with a
hit wins.  Seventeen digits always suffice.
-/

namespace Cosim.Decimal

/-- Decimal digits, most significant first, and the place of the point: the
value is `0.d₁d₂… * 10 ^ point`. -/
structure Digits where
  digits : List Nat
  point : Int
deriving DecidableEq, Repr, Inhabited

/-- A non-negative rational number. -/
private structure Ratio where
  num : Nat
  den : Nat

/-- The ratio `n * 2 ^ q`. -/
private def dyadic (n : Nat) (q : Int) : Ratio :=
  if 0 ≤ q then ⟨n * Nat.pow 2 q.toNat, 1⟩ else ⟨n, Nat.pow 2 (-q).toNat⟩

private def Ratio.lt (a b : Ratio) : Bool := a.num * b.den < b.num * a.den

private def Ratio.le (a b : Ratio) : Bool := a.num * b.den ≤ b.num * a.den

/-- The ratio `n * 10 ^ e`. -/
private def decimal (n : Nat) (e : Int) : Ratio :=
  if 0 ≤ e then ⟨n * Nat.pow 10 e.toNat, 1⟩ else ⟨n, Nat.pow 10 (-e).toNat⟩

/-- The least `p` with `v < 10 ^ p`, searched upwards. -/
private def pointFrom (v : Ratio) : Nat → Int → Int
  | 0, p => p
  | fuel + 1, p => if v.lt (decimal 1 p) then p else pointFrom v fuel (p + 1)

/-- The numbers that round to a given one. -/
private structure Interval where
  low : Ratio
  high : Ratio
  closed : Bool

private def Interval.contains (i : Interval) (r : Ratio) : Bool :=
  if i.closed then i.low.le r && r.le i.high else i.low.lt r && r.lt i.high

/-- The interval of `m * 2 ^ q`.  Below a power of two the neighbours are twice
as close, except at the smallest exponent. -/
private def interval (m : Nat) (q : Int) : Interval where
  low :=
    if m = Nat.pow 2 52 ∧ q ≠ -1074 then dyadic (4 * m - 1) (q - 2)
    else dyadic (2 * m - 1) (q - 1)
  high := dyadic (2 * m + 1) (q - 1)
  closed := m % 2 = 0

/-- The grid point of `10 ^ e` nearest to `v` that lies in the interval. -/
private def hit (v : Ratio) (i : Interval) (e : Int) : Option Nat :=
  let unit := decimal 1 e
  let below := v.num * unit.den / (v.den * unit.num)
  let twice := 2 * (v.num * unit.den)
  let middle := (2 * below + 1) * (v.den * unit.num)
  let nearer :=
    if twice < middle then below
    else if middle < twice then below + 1
    else below + below % 2
  let other := if nearer = below then below + 1 else below
  if i.contains (decimal nearer e) then some nearer
  else if i.contains (decimal other e) then some other
  else none

private def firstHit (v : Ratio) (i : Interval) (point : Int) : List Nat → Nat × Int
  | [] => (0, 0)
  | n :: more =>
    match hit v i (point - n) with
    | some d => (d, point - n)
    | none => firstHit v i point more

private def dropZeros (digits : List Nat) : List Nat :=
  (digits.reverse.dropWhile (· == 0)).reverse

/-- The shortest digits of the positive number `m * 2 ^ q`. -/
def shortest (m : Nat) (q : Int) : Digits :=
  let v := dyadic m q
  let point := pointFrom v 700 (-330)
  let (d, e) := firstHit v (interval m q) point (List.range' 1 17)
  let digits := (Nat.toDigits 10 d).map fun c => c.toNat - '0'.toNat
  { digits := dropZeros digits, point := e + digits.length }

/-- How a printer lays digits out. -/
structure Layout where
  /-- The smallest decimal exponent written without an exponent. -/
  least : Int
  /-- The smallest decimal exponent, above `least`, written with an exponent. -/
  most : Int
  nan : String
  infinity : String
  negativeInfinity : String

private def digitText (digits : List Nat) : String :=
  String.ofList (digits.map fun d => Char.ofNat ('0'.toNat + d))

private def zeros (n : Nat) : String := String.ofList (List.replicate n '0')

/-- Digits written out in full. -/
private def positional (d : Digits) : String :=
  if d.point ≤ 0 then "0." ++ zeros (-d.point).toNat ++ digitText d.digits
  else
    let n := d.point.toNat
    let whole := d.digits.take n
    let text := digitText whole ++ zeros (n - whole.length)
    if d.digits.length ≤ n then text else text ++ "." ++ digitText (d.digits.drop n)

/-- Digits with an exponent of at least two digits. -/
private def exponential (d : Digits) : String :=
  let e := d.point - 1
  let mantissa :=
    match d.digits with
    | [] => "0"
    | [a] => digitText [a]
    | a :: rest => digitText [a] ++ "." ++ digitText rest
  let size := e.natAbs
  mantissa ++ (if e < 0 then "e-" else "e+") ++ (if size < 10 then "0" else "") ++ size.repr

/-- A floating-point number in its shortest form. -/
def render (layout : Layout) (x : Float) : String :=
  match Binary.ofFloat x with
  | .nan => layout.nan
  | .infinite negative => if negative then layout.negativeInfinity else layout.infinity
  | .finite negative m q =>
    let sign := if negative then "-" else ""
    if m = 0 then sign ++ "0"
    else
      let d := shortest m q
      let e := d.point - 1
      sign ++ (if e < layout.least || layout.most ≤ e then exponential d else positional d)

end Cosim.Decimal
