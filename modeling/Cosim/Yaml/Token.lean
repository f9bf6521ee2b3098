import Cosim.Yaml.Lexeme

/-!
# Tokens

A document is a row of tokens: scalars, anchors, aliases and tags, the
indicators of flow collections, and the starts and ends of block collections,
which follow from the indentation alone.

Whether a scalar or a collection is a key is known only at the colon behind it,
on the same line.  So a `TokenStream` keeps, for each level of nesting, the
place where a key may have begun, and puts the key token there once the colon
is found.  A token is handed out when no key can begin at it any more and two
more tokens are known behind it.
-/

namespace Cosim.Yaml

/-- What a token stands for. -/
inductive TokenKind where
  | streamEnd
  | directive (value : Lexeme.Directive)
  | documentStart
  | documentEnd
  | blockSequenceStart
  | blockMappingStart
  | blockEnd
  | flowSequenceStart
  | flowSequenceEnd
  | flowMappingStart
  | flowMappingEnd
  | blockEntry
  | flowEntry
  | key
  | value
  | alias (name : String)
  | anchor (name : String)
  | tag (handle suffix : String)
  | scalar (text : String) (isPlain : Bool)
deriving DecidableEq, Repr, Inhabited

/-- A token and the place where it stands. -/
structure Token where
  kind : TokenKind
  start : Mark
  stop : Mark
deriving DecidableEq, Repr, Inhabited

/-- A place where a key may have begun. -/
structure KeyCandidate where
  /-- The number of the token there. -/
  number : Nat
  start : Mark
  /-- A key has to begin here, or the document is malformed. -/
  required : Bool
deriving DecidableEq, Repr, Inhabited

/-- The tokens of a document, as far as they are known. -/
structure TokenStream where
  cursor : Cursor
  /-- The tokens read and not yet handed out. -/
  queue : List Token := []
  /-- The number of tokens handed out. -/
  taken : Nat := 0
  /-- The column of the block collection around the cursor. -/
  indent : Int := -1
  /-- The columns of the block collections around that one, innermost first. -/
  outer : List Int := []
  /-- Where a key may have begun, for each level of flow collections, innermost
  first. -/
  candidates : List (Option KeyCandidate) := [none]
  /-- A key may begin at the cursor. -/
  keyAllowed : Bool := true
deriving Repr, Inhabited

/-- A character that may stand in a document. -/
def isAllowed (c : Char) : Bool :=
  let n := c.toNat
  n == 9 || n == 10 || n == 13 || (0x20 ≤ n && n ≤ 0x7e) || n == 0x85 ||
  (0xa0 ≤ n && n ≤ 0xfffd) || 0x10000 ≤ n

/-- The fault of a document with any other character. -/
def controlCharacters : SyntaxError := { problem := "control characters are not allowed" }

namespace TokenStream

/-- The most characters between the start of a key and its colon. -/
def keyReach : Nat := 1024

/-- The cursor is inside a flow collection. -/
def inFlow (s : TokenStream) : Bool := 1 < s.candidates.length

private def push (s : TokenStream) (kind : TokenKind) (start stop : Mark) : TokenStream :=
  { s with queue := s.queue ++ [{ kind, start, stop }] }

/-- Put a token in front of the token with the given number. -/
private def insert (s : TokenStream) (number : Nat) (kind : TokenKind) (place : Mark) :
    TokenStream :=
  { s with queue := s.queue.insertIdx (number - s.taken) { kind, start := place, stop := place } }

/-! ## Keys -/

private def candidate (s : TokenStream) : Option KeyCandidate := s.candidates.headD none

private def setCandidate (s : TokenStream) (k : Option KeyCandidate) : TokenStream :=
  { s with candidates := k :: s.candidates.tail }

private def missingColon {α : Type} (s : TokenStream) (k : KeyCandidate) : Except SyntaxError α :=
  s.cursor.fail k.start "could not find expected ':'"

/-- Give up on the key that may have begun at this level. -/
private def dropCandidate (s : TokenStream) : Except SyntaxError TokenStream :=
  match s.candidate with
  | none => .ok s
  | some k => if k.required then s.missingColon k else .ok (s.setCandidate none)

/-- Remember that a key may begin at the cursor, if one may. -/
private def saveCandidate (s : TokenStream) : Except SyntaxError TokenStream := do
  if !s.keyAllowed then return s
  let k : KeyCandidate :=
    { number := s.taken + s.queue.length
      start := s.cursor.mark
      required := !s.inFlow && s.indent == (s.cursor.mark.column : Int) }
  return (← s.dropCandidate).setCandidate (some k)

/-- A key that began there can still get its colon. -/
private def inReach (s : TokenStream) (k : KeyCandidate) : Bool :=
  !(k.start.line < s.cursor.mark.line || k.start.index + keyReach < s.cursor.mark.index)

/-- A key may begin at the token that is to be handed out next. -/
private def headOpen (s : TokenStream) : Except SyntaxError Bool :=
  match s.candidates.find? fun k => k.any (·.number == s.taken) with
  | some (some k) =>
    if s.inReach k then .ok true
    else if k.required then s.missingColon k
    else .ok false
  | _ => .ok false

/-! ## Indentation -/

/-- Start a block collection at a column right of the one around it. -/
private def roll (s : TokenStream) (column : Nat) (number : Option Nat) (kind : TokenKind)
    (place : Mark) : TokenStream :=
  if s.inFlow || (column : Int) ≤ s.indent then s
  else
    let s := { s with outer := s.indent :: s.outer, indent := column }
    match number with
    | some n => s.insert n kind place
    | none => s.push kind place place

/-- End the block collections right of a column. -/
private def unroll (s : TokenStream) (column : Int) (place : Mark) : TokenStream :=
  if s.inFlow then s else go s.outer s
where
  go : List Int → TokenStream → TokenStream
    | [], s => s
    | around :: rest, s =>
      if column < s.indent then
        go rest ({ s with indent := around, outer := rest }.push .blockEnd place place)
      else s

/-! ## Blanks and comments -/

/-- Pass a comment, and the comments on the lines that follow it. -/
private def skipComments : Nat → Cursor → Cursor
  | 0, c => c
  | fuel + 1, c =>
    let c := c.skipToBreak
    let ahead := skipLines c.rest.length c
    if ahead.hasAt 0 '#' then skipComments fuel ahead else c
where
  skipLines : Nat → Cursor → Cursor
    | 0, c => c
    | fuel + 1, c =>
      let c := c.skipWhile isBlank
      if c.onBreak then skipLines fuel c.skipLine else c

/-- Pass everything in front of the next token.  A tab must not stand where a
key may begin, unless it is inside a flow collection. -/
private def skipGap : Nat → TokenStream → TokenStream
  | 0, s => s
  | fuel + 1, s =>
    let c := s.cursor
    let c := if c.mark.column == 0 && c.hasAt 0 (Char.ofNat 0xfeff) then c.skip else c
    let tabs := s.inFlow || !s.keyAllowed
    let c := c.skipWhile fun ch => ch == ' ' || (tabs && ch == '\t')
    let c := if c.hasAt 0 '#' then skipComments (c.rest.length + 1) c else c
    if c.onBreak then
      skipGap fuel { s with cursor := c.skipLine, keyAllowed := s.keyAllowed || !s.inFlow }
    else { s with cursor := c }

/-- Pass a comment on the line of the token that was just read. -/
private def skipLineComment (s : TokenStream) : TokenStream :=
  let c := s.cursor
  let ahead := c.skipWhile isBlank
  if c.newlines = 0 && s.queue.getLast?.all (·.kind != .blockEntry) && ahead.hasAt 0 '#' then
    { s with cursor := ahead.skipToBreak }
  else s

/-! ## Reading tokens -/

/-- Pass an indicator of `n` characters and hand it over as a token. -/
private def indicator (s : TokenStream) (n : Nat) (kind : TokenKind) : TokenStream :=
  let c := s.cursor.skipMany n
  { s with cursor := c }.push kind s.cursor.mark c.mark

private def readEnd (s : TokenStream) : Except SyntaxError TokenStream := do
  let m := s.cursor.mark
  let m := if m.column = 0 then m else { m with column := 0, line := m.line + 1 }
  let s := { s with cursor := { s.cursor with mark := m } }
  let s ← (s.unroll (-1) m).dropCandidate
  return { s with keyAllowed := false }.push .streamEnd m m

/-- Leave every block collection, for a directive or a document mark. -/
private def leaveBlocks (s : TokenStream) : Except SyntaxError TokenStream := do
  let s ← (s.unroll (-1) s.cursor.mark).dropCandidate
  return { s with keyAllowed := false }

private def readDirective (s : TokenStream) : Except SyntaxError TokenStream := do
  let s ← s.leaveBlocks
  let (value, c) ← Lexeme.directive s.cursor
  return { s with cursor := c }.push (.directive value) s.cursor.mark c.mark

private def readFlowStart (s : TokenStream) (kind : TokenKind) :
    Except SyntaxError TokenStream := do
  let s ← s.saveCandidate
  return { s with candidates := none :: s.candidates, keyAllowed := true }.indicator 1 kind

private def readFlowEnd (s : TokenStream) (kind : TokenKind) : Except SyntaxError TokenStream := do
  let s ← s.dropCandidate
  let candidates := if s.inFlow then s.candidates.tail else s.candidates
  return { s with candidates, keyAllowed := false }.indicator 1 kind

private def readFlowEntry (s : TokenStream) : Except SyntaxError TokenStream := do
  let s ← s.dropCandidate
  return { s with keyAllowed := true }.indicator 1 .flowEntry

private def readBlockEntry (s : TokenStream) : Except SyntaxError TokenStream := do
  let m := s.cursor.mark
  if !s.inFlow && !s.keyAllowed then
    s.cursor.fail m "block sequence entries are not allowed in this context"
  let s ← (s.roll m.column none .blockSequenceStart m).dropCandidate
  return { s with keyAllowed := true }.indicator 1 .blockEntry

private def readKey (s : TokenStream) : Except SyntaxError TokenStream := do
  let m := s.cursor.mark
  if !s.inFlow && !s.keyAllowed then
    s.cursor.fail m "mapping keys are not allowed in this context"
  let s ← (s.roll m.column none .blockMappingStart m).dropCandidate
  return { s with keyAllowed := !s.inFlow }.indicator 1 .key

/-- A colon makes a key of what stands before it, if that may be a key. -/
private def readValue (s : TokenStream) : Except SyntaxError TokenStream := do
  let live ← match s.candidate with
    | none => pure none
    | some k =>
      if s.inReach k then pure (some k)
      else if k.required then s.missingColon k
      else pure none
  let s := s.setCandidate none
  match live with
  | some k =>
    let s := (s.insert k.number .key k.start).roll k.start.column (some k.number)
      .blockMappingStart k.start
    return { s with keyAllowed := false }.indicator 1 .value
  | none =>
    let m := s.cursor.mark
    if !s.inFlow && !s.keyAllowed then
      s.cursor.fail m "mapping values are not allowed in this context"
    let s := s.roll m.column none .blockMappingStart m
    return { s with keyAllowed := !s.inFlow }.indicator 1 .value

/-- Read a lexeme that may begin a key. -/
private def readLexeme {α : Type} (s : TokenStream)
    (read : Cursor → Except SyntaxError (α × Cursor)) (kind : α → TokenKind) :
    Except SyntaxError TokenStream := do
  let s ← s.saveCandidate
  let (value, c) ← read s.cursor
  return { s with cursor := c, keyAllowed := false }.push (kind value) s.cursor.mark c.mark

private def readBlockScalar (s : TokenStream) (literal : Bool) :
    Except SyntaxError TokenStream := do
  let s ← s.dropCandidate
  let (text, c) ← Lexeme.blockScalar literal s.indent s.cursor
  return { s with cursor := c, keyAllowed := true }.push (.scalar text false) s.cursor.mark c.mark

private def readPlain (s : TokenStream) : Except SyntaxError TokenStream := do
  let s ← s.saveCandidate
  let (text, broken, c, stop) ← Lexeme.plainScalar s.inFlow s.indent s.cursor
  return { s with cursor := c, keyAllowed := broken }.push (.scalar text true) s.cursor.mark stop

/-- A plain scalar may begin with this character. -/
private def startsPlain (s : TokenStream) (ch : Char) : Bool :=
  let c := s.cursor
  !(isBlank ch || isLineEnd ch || "-?:,[]\x7b\x7d#&*!|>'\"%@`".toList.contains ch) ||
  (ch == '-' && !(c.at? 1).any isBlank) ||
  (!s.inFlow && (ch == '?' || ch == ':') && !c.gapAt 1)

/-- Read the token that starts with the given character. -/
private def readAt (s : TokenStream) (ch : Char) : Except SyntaxError TokenStream :=
  let c := s.cursor
  let open? := s.inFlow || c.gapAt 1
  if ch == '[' then s.readFlowStart .flowSequenceStart
  else if ch == '\x7b' then s.readFlowStart .flowMappingStart
  else if ch == ']' then s.readFlowEnd .flowSequenceEnd
  else if ch == '\x7d' then s.readFlowEnd .flowMappingEnd
  else if ch == ',' then s.readFlowEntry
  else if ch == '-' && c.gapAt 1 then s.readBlockEntry
  else if ch == '?' && open? then s.readKey
  else if ch == ':' && open? then s.readValue
  else if ch == '*' then s.readLexeme Lexeme.anchorName .alias
  else if ch == '&' then s.readLexeme Lexeme.anchorName .anchor
  else if ch == '!' then s.readLexeme Lexeme.tag fun (handle, suffix) => .tag handle suffix
  else if ch == '|' && !s.inFlow then s.readBlockScalar true
  else if ch == '>' && !s.inFlow then s.readBlockScalar false
  else if ch == '\'' then s.readLexeme (Lexeme.quotedScalar true) (.scalar · false)
  else if ch == '"' then s.readLexeme (Lexeme.quotedScalar false) (.scalar · false)
  else if s.startsPlain ch then s.readPlain
  else c.fail c.mark "found character that cannot start any token"

/-- Read one more token. -/
def read (s : TokenStream) : Except SyntaxError TokenStream := do
  let start := s.cursor.mark
  let s := skipGap (s.cursor.rest.length + 1) s
  let c := s.cursor
  let s := s.unroll c.mark.column start
  match c.rest with
  | [] => s.readEnd
  | ch :: _ =>
    if c.mark.column = 0 && ch == '%' then s.readDirective
    else if c.onDocumentMark then
      return (← s.leaveBlocks).indicator 3 (if ch == '-' then .documentStart else .documentEnd)
    else return (← s.readAt ch).skipLineComment

/-- The number of tokens that are known before the first is handed out. -/
def lookahead : Nat := 3

/-- Read tokens until the first can be handed out. -/
private def fill : Nat → TokenStream → Except SyntaxError TokenStream
  | 0, s => .ok s
  | fuel + 1, s => do
    if s.queue.length < lookahead || (← s.headOpen) then fill fuel (← s.read) else return s

/-- The next token. -/
def peek (s : TokenStream) : Except SyntaxError (Token × TokenStream) := do
  let s ← fill (s.cursor.rest.length + lookahead + 1) s
  let m := s.cursor.mark
  return (s.queue.headD { kind := .streamEnd, start := m, stop := m }, s)

/-- Hand out the next token. -/
def skip (s : TokenStream) : TokenStream :=
  { s with queue := s.queue.tail, taken := s.taken + 1 }

/-- The tokens of a text.  A byte order mark in front of it is passed. -/
def ofText (text : String) : Except SyntaxError TokenStream :=
  let rest := match text.toList with
    | c :: rest => if c.toNat == 0xfeff then rest else c :: rest
    | [] => []
  if rest.all isAllowed then .ok { cursor := { rest } }
  else .error controlCharacters

end TokenStream

end Cosim.Yaml
