import Cosim.Error

/-!
# Numerals

Reading integers from text, in a fixed base or in the base that the text itself
announces: `0x`, `0o` and `0b` before the digits, a leading `0` for octal, and
underscores between digits.

Reading goes from left to right and stops at the first fault, so a numeral that
grows too large is out of range even if a later character is no digit.
-/

namespace Cosim.Numeral

/-- The value of a digit, up to base 36. -/
def digitValue (c : Char) : Option Nat :=
  if '0' ≤ c ∧ c ≤ '9' then some (c.toNat - '0'.toNat)
  else if 'a' ≤ c ∧ c ≤ 'z' then some (c.toNat - 'a'.toNat + 10)
  else if 'A' ≤ c ∧ c ≤ 'Z' then some (c.toNat - 'A'.toNat + 10)
  else none

/-- Read digits into `acc`; the value has to stay below `2 ^ 64`. -/
def digitsFrom (base : Nat) (underscores : Bool) (acc : Nat) : List Char → Except NumeralReason Nat
  | [] => .ok acc
  | c :: rest =>
    if underscores ∧ c = '_' then digitsFrom base underscores acc rest
    else
      match digitValue c with
      | none => .error .syntaxError
      | some d =>
        if base ≤ d then .error .syntaxError
        else
          let acc := acc * base + d
          if Nat.pow 2 64 ≤ acc then .error .outOfRange
          else digitsFrom base underscores acc rest

/-- Underscores stand only between digits, or between a base mark and a digit.
`last` is the kind of the character before. -/
def spaced (isHex : Bool) (last : Char) : List Char → Bool
  | [] => last != '_'
  | c :: rest =>
    if c.isDigit ∨ (isHex ∧ (digitValue c).any (· < 16)) then spaced isHex '0' rest
    else if c = '_' then last == '0' && spaced isHex '_' rest
    else last != '_' && spaced isHex '!' rest

/-- The base that a mark announces. -/
def markedBase (c : Char) : Option Nat :=
  match c.toLower with
  | 'x' => some 16
  | 'o' => some 8
  | 'b' => some 2
  | _ => none

/-- Underscores are used as digit separators, if at all. -/
def underscoresOk (cs : List Char) : Bool :=
  let cs := match cs with
    | '-' :: rest => rest
    | '+' :: rest => rest
    | _ => cs
  match cs with
  | '0' :: mark :: rest =>
    match markedBase mark with
    | some base => spaced (base == 16) '0' rest
    | none => spaced false '^' cs
  | _ => spaced false '^' cs

/-- Read an unsigned numeral below `2 ^ 64` in a fixed base. -/
def unsigned (base : Nat) (cs : List Char) : Except NumeralReason Nat :=
  if cs.isEmpty then .error .syntaxError else digitsFrom base false 0 cs

/-- Read an unsigned numeral below `2 ^ 64` in the base it announces. -/
def unsignedMarked (cs : List Char) : Except NumeralReason Nat :=
  match cs with
  | [] => .error .syntaxError
  | '0' :: mark :: rest =>
    let value :=
      match markedBase mark, rest with
      | some base, _ :: _ => digitsFrom base true 0 rest
      | _, _ => digitsFrom 8 true 0 (mark :: rest)
    match value with
    | .error e => .error e
    | .ok n => if cs.contains '_' ∧ ¬ underscoresOk cs then .error .syntaxError else .ok n
  | _ =>
    match digitsFrom 10 true 0 cs with
    | .error e => .error e
    | .ok n => if cs.contains '_' ∧ ¬ underscoresOk cs then .error .syntaxError else .ok n

/-- Read an optional sign and a numeral of 64 bits. -/
def signedBy (read : List Char → Except NumeralReason Nat) (cs : List Char) :
    Except NumeralReason Int :=
  let (negative, digits) := match cs with
    | '-' :: rest => (true, rest)
    | '+' :: rest => (false, rest)
    | _ => (false, cs)
  if cs.isEmpty then .error .syntaxError
  else
    match read digits with
    | .error e => .error e
    | .ok n =>
      if negative then
        if Nat.pow 2 63 < n then .error .outOfRange else .ok (-(n : Int))
      else if Nat.pow 2 63 ≤ n then .error .outOfRange
      else .ok n

/-- Read a signed numeral of 64 bits in a fixed base. -/
def signed (base : Nat) : List Char → Except NumeralReason Int := signedBy (unsigned base)

/-- Read a signed numeral of 64 bits in the base it announces. -/
def signedMarked : List Char → Except NumeralReason Int := signedBy unsignedMarked

end Cosim.Numeral
