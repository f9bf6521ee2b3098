import Cosim.Yaml.Cursor

/-!
# Lexemes

The parts of a document that have a spelling of their own: anchors and aliases,
tags, directives, block scalars, quoted scalars and plain scalars.  Each reader
starts at the first character of the lexeme and returns the cursor behind it.
-/

namespace Cosim.Yaml.Lexeme

/-! ## Anchors and aliases -/

/-- The name of an anchor or an alias, behind its mark. -/
def anchorName (c : Cursor) : Except SyntaxError (String × Cursor) :=
  let start := c.mark
  let (name, c) := c.skip.takeWhile isNameChar
  let ends := c.gapAt 0 || (c.at? 0).any fun ch => "?:,]\x7d%@`".toList.contains ch
  if name.isEmpty || !ends then
    c.fail start "did not find expected alphabetic or numeric character"
  else .ok (String.ofList name, c)

/-! ## Tags -/

private def isUriChar (c : Char) : Bool :=
  isNameChar c || ";/?:@&=+$,.!~*'()[]%".toList.contains c

private def hexValue (c : Char) : Option Nat :=
  if c.isDigit then some (c.toNat - 48)
  else if 'a' ≤ c ∧ c ≤ 'f' then some (c.toNat - 87)
  else if 'A' ≤ c ∧ c ≤ 'F' then some (c.toNat - 55)
  else none

/-- One octet written as a percent sign and two digits. -/
private def octet (c : Cursor) : Option (Nat × Cursor) :=
  match c.rest with
  | '%' :: a :: b :: _ =>
    match hexValue a, hexValue b with
    | some a, some b => some (16 * a + b, c.skipMany 3)
    | _, _ => none
  | _ => none

/-- The octets that continue a character. -/
private def trailingOctets (start : Mark) : Nat → Nat → Cursor → Except SyntaxError (Nat × Cursor)
  | 0, value, c => .ok (value, c)
  | n + 1, value, c =>
    match octet c with
    | none => c.fail start "did not find URI escaped octet"
    | some (o, next) =>
      if o / 64 = 2 then trailingOctets start n (value * 64 + o % 64) next
      else next.fail start "found an incorrect trailing UTF-8 octet"

/-- A character written as escaped octets. -/
private def escapedChar (start : Mark) (c : Cursor) : Except SyntaxError (Char × Cursor) :=
  match octet c with
  | none => c.fail start "did not find URI escaped octet"
  | some (o, next) => do
    let (more, value) ←
      if o < 0x80 then pure (0, o)
      else if o / 32 = 6 then pure (1, o % 32)
      else if o / 16 = 14 then pure (2, o % 16)
      else if o / 8 = 30 then pure (3, o % 8)
      else next.fail start "found an incorrect leading UTF-8 octet"
    let (value, c) ← trailingOctets start more value next
    return (Char.ofNat value, c)

/-- The characters of a tag's name. -/
private def uriFrom (start : Mark) : Nat → List Char → Cursor →
    Except SyntaxError (List Char × Cursor)
  | 0, acc, c => .ok (acc, c)
  | fuel + 1, acc, c =>
    match c.at? 0 with
    | some '%' => do
      let (ch, c) ← escapedChar start c
      uriFrom start fuel (acc ++ [ch]) c
    | some ch => if isUriChar ch then uriFrom start fuel (acc ++ [ch]) c.skip else .ok (acc, c)
    | none => .ok (acc, c)

/-- A tag's name behind what was already read of it. -/
private def uri (head : List Char) (start : Mark) (c : Cursor) :
    Except SyntaxError (List Char × Cursor) := do
  let (name, next) ← uriFrom start (c.rest.length + 1) [] c
  if name.isEmpty && head.isEmpty then next.fail start "did not find expected tag URI"
  else .ok (head.drop 1 ++ name, next)

/-- A tag handle: `!`, `!!` or `!name!`; without the closing mark it may also be
the start of a tag's name. -/
private def tagHandle (directive : Bool) (start : Mark) (c : Cursor) :
    Except SyntaxError (List Char × Cursor) :=
  if !c.hasAt 0 '!' then c.fail start "did not find expected '!'"
  else
    let (name, c) := c.skip.takeWhile isNameChar
    if c.hasAt 0 '!' then .ok ('!' :: name ++ ['!'], c.skip)
    else if directive && !name.isEmpty then c.fail start "did not find expected '!'"
    else .ok ('!' :: name, c)

/-- A tag: its handle and the rest of its name. -/
def tag (c : Cursor) : Except SyntaxError ((String × String) × Cursor) := do
  let start := c.mark
  let ((handle, suffix), c) ←
    if c.hasAt 1 '<' then do
      let (suffix, c) ← uri [] start (c.skipMany 2)
      if !c.hasAt 0 '>' then c.fail start "did not find the expected '>'"
      pure (([], suffix), c.skip)
    else do
      let (handle, c) ← tagHandle false start c
      if handle.length > 1 && handle.getLast? == some '!' then
        let (suffix, c) ← uri [] start c
        pure ((handle, suffix), c)
      else
        let (suffix, c) ← uri handle start c
        if suffix.isEmpty then pure (([], ['!']), c) else pure ((['!'], suffix), c)
  if !c.gapAt 0 then c.fail start "did not find expected whitespace or line break"
  return ((String.ofList handle, String.ofList suffix), c)

/-! ## Directives -/

/-- What a directive says. -/
inductive Directive where
  | version (major minor : Nat)
  | tag (handle replacement : String)
deriving DecidableEq, Repr, Inhabited

private def versionNumber (start : Mark) (c : Cursor) : Except SyntaxError (Nat × Cursor) :=
  let (digits, c) := c.takeWhile Char.isDigit
  if digits.isEmpty then c.fail start "did not find expected version number"
  else if 9 < digits.length then c.fail start "found extremely long version number"
  else .ok (digits.foldl (fun n d => n * 10 + (d.toNat - 48)) 0, c)

/-- A directive, up to the end of its line. -/
def directive (c : Cursor) : Except SyntaxError (Directive × Cursor) := do
  let start := c.mark
  let (name, c) := c.skip.takeWhile isNameChar
  if name.isEmpty then c.fail start "could not find expected directive name"
  if !c.gapAt 0 then c.fail start "found unexpected non-alphabetical character"
  let (value, c) ←
    if name == "YAML".toList then do
      let (major, c) ← versionNumber start (c.skipWhile isBlank)
      if !c.hasAt 0 '.' then c.fail start "did not find expected digit or '.' character"
      let (minor, c) ← versionNumber start c.skip
      pure (Directive.version major minor, c)
    else if name == "TAG".toList then do
      let (handle, c) ← tagHandle true start (c.skipWhile isBlank)
      if !c.onBlank then c.fail start "did not find expected whitespace"
      let (replacement, c) ← uri [] start (c.skipWhile isBlank)
      if !c.gapAt 0 then c.fail start "did not find expected whitespace or line break"
      pure (Directive.tag (String.ofList handle) (String.ofList replacement), c)
    else c.fail start "found unknown directive name"
  let c := c.skipWhile isBlank
  let c := if c.hasAt 0 '#' then c.skipToBreak else c
  if !c.breakAt 0 then c.fail start "did not find expected comment or line break"
  return (value, c.skipLine)

/-! ## Block scalars -/

/-- Which line ends a block scalar keeps at its end. -/
inductive Chomping where
  | strip
  | clip
  | keep
deriving DecidableEq, Repr, Inhabited

/-- Pass indentation and empty lines; the deepest indentation seen is returned
with the line ends.  An indentation of zero is still to be found out. -/
private def blockBreaks (start : Mark) (indent : Nat) : Nat → Nat → List Char → Cursor →
    Except SyntaxError (Nat × List Char × Cursor)
  | 0, deepest, breaks, c => .ok (deepest, breaks, c)
  | fuel + 1, deepest, breaks, c =>
    let inside (c : Cursor) : Bool := indent == 0 || c.mark.column < indent
    let c := go inside c.rest c
    let deepest := max deepest c.mark.column
    if inside c && c.hasAt 0 '\t' then
      c.fail start "found a tab character where an indentation space is expected"
    else if c.onBreak then
      let (line, c) := c.readLine
      blockBreaks start indent fuel deepest (breaks ++ line) c
    else .ok (deepest, breaks, c)
where
  go (inside : Cursor → Bool) : List Char → Cursor → Cursor
    | [], c => c
    | ch :: rest, c => if ch == ' ' && inside c then go inside rest c.skip else c

/-- The lines of a block scalar.  `leading` is the end of the line before, and
`trailing` the empty lines since; `deeper` tells that the line before started
with a blank. -/
private def blockLines (literal : Bool) (chomping : Chomping) (start : Mark) (indent : Nat) :
    Nat → List Char → List Char → List Char → Bool → Cursor →
    Except SyntaxError (List Char × Cursor)
  | 0, acc, _, _, _, c => .ok (acc, c)
  | fuel + 1, acc, leading, trailing, deeper, c =>
    if c.mark.column == indent && !c.atEnd then do
      let blank := c.onBlank
      let fold := !literal && !deeper && !blank && leading.head? == some '\n'
      let joint := if fold then (if trailing.isEmpty then [' '] else []) else leading
      let (line, c) := c.takeWhile fun ch => !isLineEnd ch
      let (leading, c) := c.readLine
      let (_, trailing', c) ← blockBreaks start indent (c.rest.length + 1) 0 [] c
      blockLines literal chomping start indent fuel (acc ++ joint ++ trailing ++ line) leading
        trailing' blank c
    else
      match chomping with
      | .strip => .ok (acc, c)
      | .clip => .ok (acc ++ leading, c)
      | .keep => .ok (acc ++ leading ++ trailing, c)

private def chompingOf (c : Cursor) : Option Chomping :=
  if c.hasAt 0 '+' then some .keep
  else if c.hasAt 0 '-' then some .strip
  else none

/-- The indentation that a block scalar announces, zero if it does not. -/
private def increment (start : Mark) (c : Cursor) : Except SyntaxError (Nat × Cursor) :=
  match c.at? 0 with
  | some d =>
    if d == '0' then c.fail start "found an indentation indicator equal to 0"
    else if d.isDigit then .ok (d.toNat - 48, c.skip)
    else .ok (0, c)
  | none => .ok (0, c)

/-- A block scalar inside a construct of the given indentation. -/
def blockScalar (literal : Bool) (parent : Int) (c : Cursor) :
    Except SyntaxError (String × Cursor) := do
  let start := c.mark
  let c := c.skip
  let (chomping, step, c) ←
    match chompingOf c with
    | some chomping => do
      let (step, c) ← increment start c.skip
      pure (chomping, step, c)
    | none => do
      let (step, c) ← increment start c
      match (if step = 0 then none else chompingOf c) with
      | some chomping => pure (chomping, step, c.skip)
      | none => pure (Chomping.clip, step, c)
  let c := c.skipWhile isBlank
  let c := if c.hasAt 0 '#' then c.skipToBreak else c
  if !c.breakAt 0 then c.fail start "did not find expected comment or line break"
  let c := c.skipLine
  let announced : Nat := if step = 0 then 0 else (max parent 0).toNat + step
  let (deepest, trailing, c) ← blockBreaks start announced (c.rest.length + 1) 0 [] c
  let indent := if announced = 0 then max (max deepest (parent + 1).toNat) 1 else announced
  let (text, c) ←
    blockLines literal chomping start indent (c.rest.length + 1) [] [] trailing false c
  return (String.ofList text, c)

/-! ## Quoted scalars -/

/-- Blanks and line ends between two parts of a scalar: the blanks if they stand
on one line, else the first line end and the later ones. -/
private structure Gap where
  blanks : List Char := []
  leading : List Char := []
  trailing : List Char := []
  /-- A line end has been passed. -/
  broken : Bool := false

/-- What a gap reads as: a single line end becomes a space, and of several the
first is dropped. -/
private def Gap.text (g : Gap) : List Char :=
  if g.broken then
    if g.leading.head? == some '\n' then (if g.trailing.isEmpty then [' '] else g.trailing)
    else g.leading ++ g.trailing
  else g.blanks

private def readGap : Nat → Gap → Cursor → Gap × Cursor
  | 0, g, c => (g, c)
  | fuel + 1, g, c =>
    match c.at? 0 with
    | some ch =>
      if isBlank ch then
        readGap fuel (if g.broken then g else { g with blanks := g.blanks ++ [ch] }) c.skip
      else if isLineEnd ch then
        let (line, c) := c.readLine
        if g.broken then readGap fuel { g with trailing := g.trailing ++ line } c
        else readGap fuel { g with blanks := [], leading := line, broken := true } c
      else (g, c)
    | none => (g, c)

/-- The character that a backslash and a letter stand for. -/
private def escapeOf (c : Char) : Option Char :=
  match c with
  | '0' => some (Char.ofNat 0)
  | 'a' => some (Char.ofNat 7)
  | 'b' => some (Char.ofNat 8)
  | 't' => some '\t'
  | '\t' => some '\t'
  | 'n' => some '\n'
  | 'v' => some (Char.ofNat 11)
  | 'f' => some (Char.ofNat 12)
  | 'r' => some '\r'
  | 'e' => some (Char.ofNat 27)
  | ' ' => some ' '
  | '"' => some '"'
  | '\'' => some '\''
  | '\\' => some '\\'
  | 'N' => some (Char.ofNat 0x85)
  | '_' => some (Char.ofNat 0xa0)
  | 'L' => some (Char.ofNat 0x2028)
  | 'P' => some (Char.ofNat 0x2029)
  | _ => none

/-- How many digits follow a backslash and a letter. -/
private def codeLength (c : Char) : Nat :=
  if c == 'x' then 2 else if c == 'u' then 4 else if c == 'U' then 8 else 0

/-- An escaped character, behind the backslash. -/
private def escaped (start : Mark) (c : Cursor) : Except SyntaxError (Char × Cursor) :=
  match c.at? 1 with
  | none => c.fail start "found unknown escape character"
  | some ch =>
    match escapeOf ch with
    | some ch => .ok (ch, c.skipMany 2)
    | none =>
      let length := codeLength ch
      if length = 0 then c.fail start "found unknown escape character"
      else
        let c := c.skipMany 2
        let digits := (c.rest.take length).map hexValue
        if digits.length < length || digits.any Option.isNone then
          c.fail start "did not find expected hexdecimal number"
        else
          let value := digits.foldl (fun n d => 16 * n + d.getD 0) 0
          if (0xd800 ≤ value && value ≤ 0xdfff) || 0x10ffff < value then
            c.fail start "found invalid Unicode character escape code"
          else .ok (Char.ofNat value, c.skipMany length)

/-- How a run of characters inside quotes ended. -/
private inductive RunEnd where
  /-- At the closing quote. -/
  | quote
  /-- At a blank, a line end or the end of the document. -/
  | gap
  /-- Behind an escaped line end. -/
  | joined

/-- The characters inside quotes up to a blank or the closing quote. -/
private def quotedRun (single : Bool) (start : Mark) : Nat → List Char → Cursor →
    Except SyntaxError (List Char × RunEnd × Cursor)
  | 0, acc, c => .ok (acc, .gap, c)
  | fuel + 1, acc, c =>
    if c.gapAt 0 then .ok (acc, .gap, c)
    else if single && c.hasAt 0 '\'' && c.hasAt 1 '\'' then
      quotedRun single start fuel (acc ++ ['\'']) (c.skipMany 2)
    else if c.hasAt 0 (if single then '\'' else '"') then .ok (acc, .quote, c)
    else if !single && c.hasAt 0 '\\' then
      if (c.at? 1).any isLineEnd then .ok (acc, .joined, c.skip.skipLine)
      else do
        let (ch, c) ← escaped start c
        quotedRun single start fuel (acc ++ [ch]) c
    else quotedRun single start fuel (acc ++ (c.at? 0).toList) c.skip

private def quotedFrom (single : Bool) (start : Mark) : Nat → List Char → Cursor →
    Except SyntaxError (List Char × Cursor)
  | 0, acc, c => .ok (acc, c)
  | fuel + 1, acc, c =>
    if c.onDocumentMark then c.fail start "found unexpected document indicator"
    else if c.atEnd then c.fail start "found unexpected end of stream"
    else do
      let (run, stop, c) ← quotedRun single start (c.rest.length + 1) [] c
      match stop with
      | .quote => return (acc ++ run, c.skip)
      | .gap | .joined =>
        let joined := match stop with
          | .joined => true
          | _ => false
        -- After an escaped line end a quote may close the scalar at once.
        if joined && c.hasAt 0 (if single then '\'' else '"') then return (acc ++ run, c.skip)
        let (gap, c) := readGap (c.rest.length + 1) { broken := joined } c
        let text := if joined then gap.leading ++ gap.trailing else gap.text
        quotedFrom single start fuel (acc ++ run ++ text) c

/-- A scalar in single or double quotes. -/
def quotedScalar (single : Bool) (c : Cursor) : Except SyntaxError (String × Cursor) := do
  let (text, c) ← quotedFrom single c.mark (c.rest.length + 1) [] c.skip
  return (String.ofList text, c)

/-! ## Plain scalars -/

/-- A plain scalar stops at this character. -/
private def plainStops (flow : Bool) (c : Cursor) : Bool :=
  (c.hasAt 0 ':' && c.gapAt 1) ||
  (flow &&
    (match c.at? 0 with
     | some '?' => (c.at? 1).all fun ch => ch == ' ' || isLineEnd ch
     | some ch => ",[]\x7b\x7d".toList.contains ch
     | none => false))

/-- The characters of a plain scalar up to a blank. -/
private def plainRun (flow : Bool) : Nat → List Char → Cursor → List Char × Cursor
  | 0, acc, c => (acc, c)
  | fuel + 1, acc, c =>
    if c.gapAt 0 || plainStops flow c then (acc, c)
    else plainRun flow fuel (acc ++ (c.at? 0).toList) c.skip

/-- Blanks and line ends inside a plain scalar; a tab must not stand in for
indentation. -/
private def plainGap (start : Mark) (indent : Int) : Nat → Gap → Cursor →
    Except SyntaxError (Gap × Cursor)
  | 0, g, c => .ok (g, c)
  | fuel + 1, g, c =>
    match c.at? 0 with
    | some ch =>
      if isBlank ch then
        if g.broken && (c.mark.column : Int) < indent && ch == '\t' then
          c.fail start "found a tab character that violates indentation"
        else
          plainGap start indent fuel
            (if g.broken then g else { g with blanks := g.blanks ++ [ch] }) c.skip
      else if isLineEnd ch then
        let (line, c) := c.readLine
        if g.broken then plainGap start indent fuel { g with trailing := g.trailing ++ line } c
        else plainGap start indent fuel { g with blanks := [], leading := line, broken := true } c
      else .ok (g, c)
    | none => .ok (g, c)

/-- The rest of a plain scalar behind a gap.  The flag tells that the scalar was
followed by a line end. -/
private def plainFrom (flow : Bool) (start : Mark) (indent : Int) : Nat → List Char → Gap →
    Cursor → Mark → Except SyntaxError (List Char × Bool × Cursor × Mark)
  | 0, acc, g, c, stop => .ok (acc, g.broken, c, stop)
  | fuel + 1, acc, g, c, stop =>
    if c.onDocumentMark || c.hasAt 0 '#' then .ok (acc, g.broken, c, stop)
    else do
      let (run, next) := plainRun flow (c.rest.length + 1) [] c
      let (acc, g, stop) :=
        if run.isEmpty then (acc, g, stop) else (acc ++ g.text ++ run, ({} : Gap), next.mark)
      if !(next.onBlank || next.onBreak) then return (acc, g.broken, next, stop)
      let (g, next) ← plainGap start indent (next.rest.length + 1) g next
      if !flow && (next.mark.column : Int) < indent then return (acc, g.broken, next, stop)
      plainFrom flow start indent fuel acc g next stop

/-- A plain scalar inside a construct of the given indentation.  It is returned
with the place where it ends, and whether line ends follow it. -/
def plainScalar (flow : Bool) (parent : Int) (c : Cursor) :
    Except SyntaxError (String × Bool × Cursor × Mark) := do
  let (text, broken, next, stop) ←
    plainFrom flow c.mark (parent + 1) (c.rest.length + 1) [] {} c c.mark
  return (String.ofList text, broken, next, stop)

end Cosim.Yaml.Lexeme
