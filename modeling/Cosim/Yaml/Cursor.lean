/-!
# Positions in a document

A cursor is the part of a document that is still to be read, together with the
place where it starts.  Columns and indices count characters; a line ends at a
carriage return, a line feed or both, and at the three Unicode line ends.
-/

namespace Cosim.Yaml

/-- A place in a document. -/
structure Mark where
  index : Nat := 0
  line : Nat := 0
  column : Nat := 0
deriving DecidableEq, Repr, Inhabited

/-- Why a document could not be read, and where. -/
structure SyntaxError where
  problem : String
  /-- The line where the offending construct started. -/
  context : Nat := 0
  /-- The line where the fault was noticed. -/
  place : Nat := 0
  /-- The fault is not inside a token but in how tokens follow each other. -/
  betweenTokens : Bool := false
deriving DecidableEq, Repr, Inhabited

/-- The text of a syntax error.  A fault inside a token is counted from line
one, a fault between tokens from line zero, and the first line is never named. -/
def SyntaxError.message (e : SyntaxError) : String :=
  let line := if e.context ≠ 0 then e.context else e.place
  let shown := if e.betweenTokens then line else line + 1
  if line = 0 then s!"yaml: {e.problem}" else s!"yaml: line {shown}: {e.problem}"

/-- What is left of a document. -/
structure Cursor where
  rest : List Char
  mark : Mark := {}
  /-- Line ends passed since the last character other than a blank. -/
  newlines : Nat := 0
deriving Repr, Inhabited

/-- A space or a tab. -/
def isBlank (c : Char) : Bool := c == ' ' || c == '\t'

/-- The end of a line. -/
def isLineEnd (c : Char) : Bool :=
  c == '\n' || c == '\r' || c.toNat == 0x85 || c.toNat == 0x2028 || c.toNat == 0x2029

/-- A letter, a digit, an underscore or a dash. -/
def isNameChar (c : Char) : Bool := c.isAlphanum || c == '_' || c == '-'

namespace Cursor

/-- The character `n` places on. -/
def at? (c : Cursor) (n : Nat) : Option Char := c.rest[n]?

/-- The character `n` places on is the given one. -/
def hasAt (c : Cursor) (n : Nat) (ch : Char) : Bool := c.at? n == some ch

/-- The document ends here. -/
def atEnd (c : Cursor) : Bool := c.rest.isEmpty

/-- The line ends `n` places on, or the document does. -/
def breakAt (c : Cursor) (n : Nat) : Bool := (c.at? n).all isLineEnd

/-- A blank, the end of the line or of the document is `n` places on. -/
def gapAt (c : Cursor) (n : Nat) : Bool := (c.at? n).all fun ch => isBlank ch || isLineEnd ch

/-- A line end is next. -/
def onBreak (c : Cursor) : Bool := (c.at? 0).any isLineEnd

/-- A blank is next. -/
def onBlank (c : Cursor) : Bool := (c.at? 0).any isBlank

/-- Pass one character. -/
def skip (c : Cursor) : Cursor :=
  match c.rest with
  | [] => c
  | ch :: rest =>
    { rest
      mark := { c.mark with index := c.mark.index + 1, column := c.mark.column + 1 }
      newlines := if isBlank ch then c.newlines else 0 }

/-- Pass `n` characters. -/
def skipMany : Nat → Cursor → Cursor
  | 0, c => c
  | n + 1, c => skipMany n c.skip

/-- Pass the line end that is next, and return it: a line feed, or one of the
two separators that stay as they are. -/
def readLine (c : Cursor) : List Char × Cursor :=
  let next (n : Nat) (rest : List Char) : Cursor :=
    { rest
      mark := { index := c.mark.index + n, line := c.mark.line + 1, column := 0 }
      newlines := c.newlines + 1 }
  match c.rest with
  | '\r' :: '\n' :: rest => (['\n'], next 2 rest)
  | ch :: rest =>
    if ch.toNat == 0x2028 || ch.toNat == 0x2029 then ([ch], next 1 rest)
    else if isLineEnd ch then (['\n'], next 1 rest)
    else ([], c)
  | [] => ([], c)

/-- Pass the line end that is next. -/
def skipLine (c : Cursor) : Cursor := c.readLine.2

/-- Pass characters as long as the test holds. -/
def skipWhile (p : Char → Bool) (c : Cursor) : Cursor := go c.rest c
where
  go : List Char → Cursor → Cursor
    | [], c => c
    | ch :: rest, c => if p ch then go rest c.skip else c

/-- Read characters as long as the test holds. -/
def takeWhile (p : Char → Bool) (c : Cursor) : List Char × Cursor :=
  (c.rest.takeWhile p, c.skipWhile p)

/-- Pass everything up to the end of the line. -/
def skipToBreak (c : Cursor) : Cursor := c.skipWhile fun ch => !isLineEnd ch

/-- A document mark stands here: three dashes or dots at the start of a line. -/
def onDocumentMark (c : Cursor) : Bool :=
  c.mark.column == 0 &&
  (["---".toList, "...".toList].any fun m => m.isPrefixOf c.rest) && c.gapAt 3

/-- A fault noticed here, in a construct that started at `start`. -/
def fail {α : Type} (c : Cursor) (start : Mark) (problem : String) : Except SyntaxError α :=
  .error { problem, context := start.line, place := c.mark.line }

end Cursor

end Cosim.Yaml
