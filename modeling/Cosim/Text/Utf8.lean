/-!
# Bytes as text

Text is stored as UTF-8.  `ofBytes` reads bytes that need not be valid: every
byte that is no part of a character becomes the replacement character.
-/

namespace Cosim.Text

/-- The character that stands for a byte that is none. -/
def replacement : Char := Char.ofNat 0xfffd

/-- The character that a list of bytes starts with, and the bytes behind it. -/
def firstChar (bytes : List UInt8) : Option (Char × List UInt8) :=
  [1, 2, 3, 4].findSome? fun n =>
    match String.fromUTF8? (bytes.take n).toByteArray with
    | some s =>
      match s.toList with
      | [c] => some (c, bytes.drop n)
      | _ => none
    | none => none

private def charsFrom : Nat → List UInt8 → List Char
  | 0, _ => []
  | fuel + 1, bytes =>
    match bytes with
    | [] => []
    | _ :: rest =>
      match firstChar bytes with
      | some (c, rest) => c :: charsFrom fuel rest
      | none => replacement :: charsFrom fuel rest

/-- The text of a list of bytes. -/
def ofBytes (bytes : List UInt8) : String := String.ofList (charsFrom bytes.length bytes)

/-- The characters in front of the first byte that is no part of one. -/
def validChars (bytes : List UInt8) : List Char := go bytes.length bytes
where
  go : Nat → List UInt8 → List Char
    | 0, _ => []
    | fuel + 1, bytes =>
      match firstChar bytes with
      | some (c, rest) => c :: go fuel rest
      | none => []

/-- The first `n` bytes of a text, as a text of their own. -/
def takeBytes (n : Nat) (s : String) : String := ofBytes (s.toUTF8.toList.take n)

end Cosim.Text
