/-!
# Base 64

Bytes written as letters, digits and two marks, six bits each, in groups of
four that are filled up with equals signs.  Line ends between them are passed.
-/

namespace Cosim.Text.Base64

private def sixBits (c : Char) : Option Nat :=
  if 'A' ≤ c ∧ c ≤ 'Z' then some (c.toNat - 65)
  else if 'a' ≤ c ∧ c ≤ 'z' then some (c.toNat - 71)
  else if '0' ≤ c ∧ c ≤ '9' then some (c.toNat + 4)
  else if c = '+' then some 62
  else if c = '/' then some 63
  else none

/-- The bytes of a number of `3 * 8` bits. -/
private def bytesOf (n : Nat) : List UInt8 :=
  [UInt8.ofNat (n / 65536), UInt8.ofNat (n / 256), UInt8.ofNat n]

private def groups : List Char → Option (List UInt8)
  | [] => some []
  | [a, b, '=', '='] => do return (bytesOf ((← sixBits a) * 262144 + (← sixBits b) * 4096)).take 1
  | [a, b, c, '='] => do
    return (bytesOf ((← sixBits a) * 262144 + (← sixBits b) * 4096 + (← sixBits c) * 64)).take 2
  | a :: b :: c :: d :: rest => do
    let n := (← sixBits a) * 262144 + (← sixBits b) * 4096 + (← sixBits c) * 64 + (← sixBits d)
    return bytesOf n ++ (← groups rest)
  | _ => none

/-- The bytes that a text stands for. -/
def decode? (text : String) : Option (List UInt8) :=
  groups (text.toList.filter fun c => c != '\n' && c != '\r')

end Cosim.Text.Base64
