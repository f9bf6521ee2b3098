import Cosim.Text.Printable

/-!
# Quoted text

A text between double quotes, on one line and in printable characters only.
Quotes and backslashes are escaped, the common control characters have a
letter, and every other character that cannot be shown is written by its code:
`\x` and two digits below 128, `\u` and four digits, or `\U` and eight.
-/

namespace Cosim.Text

/-- The hexadecimal digits of a number, at least `width` of them. -/
def hexDigits (width n : Nat) : String :=
  let digits := String.ofList (Nat.toDigits 16 n)
  String.ofList (List.replicate (width - digits.length) '0') ++ digits

/-- How one character stands inside quotes. -/
def quotedChar (c : Char) : String :=
  match c with
  | '"' => "\\\""
  | '\\' => "\\\\"
  | '\n' => "\\n"
  | '\r' => "\\r"
  | '\t' => "\\t"
  | _ =>
    let n := c.toNat
    if isPrintable c then c.toString
    else if n = 7 then "\\a"
    else if n = 8 then "\\b"
    else if n = 11 then "\\v"
    else if n = 12 then "\\f"
    else if n < 0x80 then "\\x" ++ hexDigits 2 n
    else if n < 0x10000 then "\\u" ++ hexDigits 4 n
    else "\\U" ++ hexDigits 8 n

/-- A text between double quotes. -/
def quoted (s : String) : String :=
  "\"" ++ String.join (s.toList.map quotedChar) ++ "\""

/-- A character between single quotes. -/
def quotedOne (c : Char) : String :=
  "'" ++ (if c = '\'' then "\\'" else if c = '"' then "\"" else quotedChar c) ++ "'"

/-- A word as lower-case hexadecimal, marked by `0x`. -/
def hex (w : UInt64) : String := "0x" ++ hexDigits 1 w.toNat

end Cosim.Text
