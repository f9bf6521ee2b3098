import Cosim.Numeral
import Cosim.Text.Blank

/-!
# Hexadecimal settings

Instruction ceilings are given in hexadecimal, with or without the mark `0x`,
and with white space around them.
-/

namespace Cosim.Hex

/-- The characters without the given ones at the front. -/
def dropMark (mark cs : List Char) : List Char :=
  if mark.isPrefixOf cs then cs.drop mark.length else cs

/-- Read a hexadecimal number below `2 ^ 64`. -/
def parse (text : String) : Except Error UInt64 :=
  let cs := dropMark ['0', 'X'] (dropMark ['0', 'x'] (Text.trimBlanks text.toList))
  if cs.isEmpty then .error (.text "empty hexadecimal value")
  else
    match Numeral.unsigned 16 cs with
    | .ok n => .ok (UInt64.ofNat n)
    | .error reason => .error (.numeral "strconv.ParseUint" (String.ofList cs) reason)

/-- Read the value of a setting; an error names the text it was given. -/
def parseSetting (text : String) : Except Error UInt64 :=
  match parse text with
  | .ok n => .ok n
  | .error e => .error (.within s!"invalid hexadecimal {Text.quoted text}" e)

/-- Give a setting the value of a text.  A text that cannot be read leaves the
setting as it was. -/
def assign (old : UInt64) (text : String) : UInt64 × Option Error :=
  match parseSetting text with
  | .ok n => (n, none)
  | .error e => (old, some e)

end Cosim.Hex
