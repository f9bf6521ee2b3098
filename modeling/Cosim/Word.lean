/-!
# Little-endian words

The hardware writes 64-bit fields low byte first.  `wordBytes` lays a word out
as eight bytes and `wordOfBytes` reads the first eight bytes of a list back.

A list shorter than eight bytes reads as the zero word, so `wordOfBytes` is
total; the record codec only applies it where eight bytes remain.
-/

namespace Cosim

/-- The eight little-endian bytes of a 64-bit word. -/
def wordBytes (w : UInt64) : List UInt8 :=
  [ w.toUInt8
  , (w >>> 8).toUInt8
  , (w >>> 16).toUInt8
  , (w >>> 24).toUInt8
  , (w >>> 32).toUInt8
  , (w >>> 40).toUInt8
  , (w >>> 48).toUInt8
  , (w >>> 56).toUInt8 ]

/-- The word whose little-endian bytes start the list. -/
def wordOfBytes : List UInt8 → UInt64
  | b₀ :: b₁ :: b₂ :: b₃ :: b₄ :: b₅ :: b₆ :: b₇ :: _ =>
      b₀.toUInt64 ||| (b₁.toUInt64 <<< 8) ||| (b₂.toUInt64 <<< 16) |||
        (b₃.toUInt64 <<< 24) ||| (b₄.toUInt64 <<< 32) ||| (b₅.toUInt64 <<< 40) |||
        (b₆.toUInt64 <<< 48) ||| (b₇.toUInt64 <<< 56)
  | _ => 0

@[simp] theorem wordBytes_length (w : UInt64) : (wordBytes w).length = 8 := rfl

end Cosim
