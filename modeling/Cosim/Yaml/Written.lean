import Cosim.Text.Quoted
import Cosim.Yaml.Cursor
import Cosim.Yaml.Scalar

/-!
# Writing scalars

`writeText` writes a text as the value of a key, in the plainest style that
reads back as the same text:

* plain, unless it would read as something else or holds an indicator;
* in single quotes, when only its characters are in the way;
* in double quotes, when it would read as a number, a truth value or a null, or
  when a character has to be escaped;
* as a literal block, when it has several lines.
-/

namespace Cosim.Yaml

/-- How many blanks a nested level is indented by. -/
def indentWidth : Nat := 4

/-- The character may stand in a document as it is. -/
def isWritable (c : Char) : Bool :=
  let n := c.toNat
  n == 0x0a || (0x20 ≤ n && n ≤ 0x7e) || (0xa0 ≤ n && n ≤ 0xfffd && n != 0xfeff)

/-- What stands in the way of the different styles. -/
structure Shape where
  /-- Has a character that would be read as an indicator. -/
  indicators : Bool := false
  lineBreaks : Bool := false
  /-- Has a character that has to be escaped. -/
  special : Bool := false
  tabs : Bool := false
  leading : Bool := false
  trailing : Bool := false
  trailingSpace : Bool := false
  breakSpace : Bool := false
  spaceBreak : Bool := false
deriving Repr, Inhabited

/-- The character, between its neighbours, reads as an indicator. -/
private def isIndicator (before : Option Char) (c : Char) (after : Option Char) : Bool :=
  let followed := after.all isBlank
  match before with
  | none =>
    if "#,[]\x7b\x7d&*!|>'\"%@`".toList.contains c then true
    else if c == '?' || c == ':' || c == '-' then followed
    else false
  | some b =>
    if c == ':' then followed
    else if c == '#' then isBlank b || isLineEnd b || b.toNat == 0
    else false

private def shapeFrom (before : Option Char) (s : Shape) : List Char → Shape
  | [] => s
  | c :: rest =>
    let last := rest.isEmpty
    let first := before.isNone
    let afterSpace := before.any (· == ' ')
    let afterBreak := before.any isLineEnd
    let space := c == ' '
    let s := { s with
      indicators := s.indicators || isIndicator before c rest.head?
      tabs := s.tabs || c == '\t'
      special := s.special || (c != '\t' && !isWritable c)
      lineBreaks := s.lineBreaks || isLineEnd c
      leading := s.leading || (first && (space || isLineEnd c))
      trailing := s.trailing || (last && (space || isLineEnd c))
      trailingSpace := s.trailingSpace || (last && space)
      breakSpace := s.breakSpace || (space && afterBreak)
      spaceBreak := s.spaceBreak || (isLineEnd c && afterSpace) }
    shapeFrom (some c) s rest

/-- What stands in the way of writing a text in the different styles. -/
def shape (cs : List Char) : Shape :=
  let marks := ["---".toList, "...".toList].any (·.isPrefixOf cs)
  shapeFrom none { indicators := marks } cs

private def Shape.plainOk (s : Shape) : Bool :=
  !(s.leading || s.trailing || s.breakSpace || s.spaceBreak || s.tabs || s.special ||
    s.lineBreaks || s.indicators)

private def Shape.singleOk (s : Shape) : Bool :=
  !(s.breakSpace || s.spaceBreak || s.tabs || s.special)

private def Shape.blockOk (s : Shape) : Bool :=
  !(s.trailingSpace || s.spaceBreak || s.special)

private def upperHex (width n : Nat) : String :=
  String.ofList ((Text.hexDigits width n).toList.map Char.toUpper)

/-- A character inside double quotes. -/
private def doubleQuotedChar (c : Char) : String :=
  let n := c.toNat
  if isWritable c && !isLineEnd c && c != '"' && c != '\\' then c.toString
  else if n = 0 then "\\0"
  else if n = 7 then "\\a"
  else if n = 8 then "\\b"
  else if n = 9 then "\\t"
  else if n = 10 then "\\n"
  else if n = 11 then "\\v"
  else if n = 12 then "\\f"
  else if n = 13 then "\\r"
  else if n = 27 then "\\e"
  else if n = 34 then "\\\""
  else if n = 92 then "\\\\"
  else if n = 0x85 then "\\N"
  else if n = 0x2028 then "\\L"
  else if n = 0x2029 then "\\P"
  else if n ≤ 0xff then "\\x" ++ upperHex 2 n
  else if n ≤ 0xffff then "\\u" ++ upperHex 4 n
  else "\\U" ++ upperHex 8 n

/-- A text in double quotes. -/
def doubleQuoted (cs : List Char) : String :=
  "\"" ++ String.join (cs.map doubleQuotedChar) ++ "\""

/-- What stands before a line of a scalar that belongs to a key at the given depth. -/
private def margin (depth : Nat) : List Char := List.replicate ((depth + 1) * indentWidth) ' '

/-- The inside of single quotes.  A quote is written twice, and a line that
follows a break is indented. -/
private def singleQuotedFrom (depth : Nat) (afterBreak : Bool) : List Char → List Char
  | [] => []
  | c :: rest =>
    if isLineEnd c then c :: singleQuotedFrom depth true rest
    else if c == ' ' then c :: singleQuotedFrom depth afterBreak rest
    else
      (if afterBreak then margin depth else []) ++
        (if c == '\'' then [c, c] else [c]) ++ singleQuotedFrom depth false rest

/-- A text in single quotes. -/
def singleQuoted (depth : Nat) (cs : List Char) : String :=
  "'" ++ String.ofList (singleQuotedFrom depth false cs) ++ "'"

/-- The lines of a literal block, each line with text indented. -/
private def literalFrom (depth : Nat) (afterBreak : Bool) : List Char → List Char
  | [] => []
  | c :: rest =>
    if isLineEnd c then c :: literalFrom depth true rest
    else (if afterBreak then margin depth else []) ++ c :: literalFrom depth false rest

/-- The header of a literal block: its indentation, when the text itself starts
with a blank, and what becomes of the breaks at its end. -/
private def literalHeader (cs : List Char) : String :=
  let indent := if cs.head?.any (fun c => c == ' ' || isLineEnd c) then indentWidth.repr else ""
  let keep :=
    match cs.reverse with
    | [] => "-"
    | [c] => if isLineEnd c then "+" else "-"
    | c :: d :: _ => if isLineEnd c then (if isLineEnd d then "+" else "") else "-"
  "|" ++ indent ++ keep

/-- A text as a literal block.  The line of the header ends where the first line
begins. -/
private def literal (depth : Nat) (cs : List Char) : String :=
  let start := match cs with
    | c :: _ => if isLineEnd c then "" else "\n"
    | [] => ""
  literalHeader cs ++ start ++ String.ofList (literalFrom depth true cs)

/-- The text would read as itself if it stood unquoted. -/
def readsAsText (s : String) : Bool :=
  Scalar.resolve s == .text && !isBase60 s && !isOldBool s

/-- A text as the value of a key at the given depth; the outer level has depth zero. -/
def writeText (depth : Nat) (s : String) : String :=
  let cs := s.toList
  let sh := shape cs
  if cs.contains '\n' then
    if sh.blockOk then literal depth cs else doubleQuoted cs
  else if !readsAsText s then doubleQuoted cs
  else if sh.plainOk then s
  else if sh.singleOk then singleQuoted depth cs
  else doubleQuoted cs

end Cosim.Yaml
