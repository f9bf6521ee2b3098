import Cosim.Yaml.Scalar
import Cosim.Yaml.Token

/-!
# Nodes

A node is a scalar, a sequence, a mapping, or an alias of a node that has an
anchor.  `Document.read` makes a tree of nodes out of the tokens of a text; of
several documents in the text it reads the first.

An anchor is known from the place where it is written, so a node may hold an
alias of itself.  Aliases therefore name their node by a number.
-/

namespace Cosim.Yaml

/-- A part of a document.  The tag says what kind of value it is. -/
inductive Node where
  | scalar (text tag : String) (start : Mark)
  | sequence (items : List Node) (tag : String) (start : Mark)
  | mapping (entries : List (Node × Node)) (tag : String) (start : Mark)
  /-- The node of an anchor, by its number in the document. -/
  | alias (name : String) (target : Nat) (start : Mark)
deriving Inhabited

namespace Node

/-- The place where a node starts. -/
def start : Node → Mark
  | .scalar _ _ m | .sequence _ _ m | .mapping _ _ m | .alias _ _ m => m

/-- The line where a node starts, counted from one. -/
def line (n : Node) : Nat := n.start.line + 1

end Node

/-- A tree of nodes. -/
structure Document where
  root : Node
  /-- The nodes with an anchor, by number. -/
  anchored : Array Node
deriving Inhabited

namespace Document

/-- The state of reading a document. -/
structure Reading where
  tokens : TokenStream
  /-- The handles that tags may use, and what they stand for. -/
  handles : List (String × String) := []
  /-- The anchors written so far and their numbers, latest first. -/
  names : List (String × Nat) := []
  anchored : Array Node := #[]
deriving Inhabited

/-- A step of reading a document. -/
abbrev Reader := StateT Reading (Except SyntaxError)

private def peek : Reader Token := do
  let r ← get
  let (token, tokens) ← r.tokens.peek
  set { r with tokens }
  return token

private def skip : Reader Unit := modify fun r => { r with tokens := r.tokens.skip }

/-- Pass a token and look at the next. -/
private def skipPeek : Reader Token := do skip; peek

/-- The tokens do not follow each other as they should. -/
private def fail {α : Type} (context : Option Mark) (problem : String) (place : Mark) : Reader α :=
  throw { problem, context := (context.map (·.line)).getD 0, place := place.line
          betweenTokens := true }

/-- The short form of a tag. -/
def shortTag (tag : String) : String :=
  let long := "tag:yaml.org,2002:"
  if tag.startsWith long then "!!" ++ String.ofList (tag.toList.drop long.length) else tag

/-- A node that is not written out. -/
private def emptyScalar (place : Mark) : Node := .scalar "" "!!null" place

/-- The tag of a plain or quoted scalar. -/
private def scalarTag (given text : String) (isPlain : Bool) : String :=
  if given ≠ "" && given ≠ "!" then shortTag given
  else if !isPlain then "!!str"
  else if text == "<<" then "!!merge"
  else (Scalar.resolve text).tag

private def collectionTag (given default : String) : String :=
  if given ≠ "" && given ≠ "!" then shortTag given else default

/-- What stands in front of a node: its anchor and its tag. -/
private structure Properties where
  start : Mark
  anchor : Option String := none
  tag : Option (String × String × Mark) := none

private def readProperties (first : Token) : Reader (Properties × Token) := do
  let p : Properties := { start := first.start }
  match first.kind with
  | .anchor name =>
    let next ← skipPeek
    match next.kind with
    | .tag handle suffix =>
      return ({ p with anchor := name, tag := some (handle, suffix, next.start) }, ← skipPeek)
    | _ => return ({ p with anchor := name }, next)
  | .tag handle suffix =>
    let p := { p with tag := some (handle, suffix, first.start) }
    let next ← skipPeek
    match next.kind with
    | .anchor name => return ({ p with anchor := name }, ← skipPeek)
    | _ => return (p, next)
  | _ => return (p, first)

/-- The tag that a handle and a suffix stand for. -/
private def fullTag (p : Properties) : Reader String := do
  match p.tag with
  | none => return ""
  | some ("", suffix, _) => return suffix
  | some (handle, suffix, place) =>
    match (← get).handles.lookup handle with
    | some long => if long ++ suffix ≠ "" then return long ++ suffix
    | none => pure ()
    fail (some p.start) "found undefined tag handle" place

/-- Give the next number to an anchor. -/
private def reserve (anchor : Option String) : Reader (Option Nat) := do
  match anchor with
  | none => return none
  | some name =>
    let r ← get
    let id := r.anchored.size
    set { r with names := (name, id) :: r.names, anchored := r.anchored.push default }
    return some id

/-- Keep the node of an anchor. -/
private def keep (id : Option Nat) (n : Node) : Reader Node := do
  match id with
  | none => return n
  | some id =>
    modify fun r => { r with anchored := r.anchored.set! id n }
    return n

private def readAlias (name : String) (place : Mark) : Reader Node := do
  skip
  match (← get).names.lookup name with
  | some target => return .alias name target place
  | none => throw { problem := s!"unknown anchor '{name}' referenced" }

/-- Where a node may stand, which decides what it can be. -/
private structure Place where
  /-- Block collections are allowed. -/
  block : Bool
  /-- A sequence may start without being indented. -/
  indentless : Bool := false

private def tooDeep {α : Type} : Reader α := throw { problem := "exceeded max depth" }

mutual

/-- Read a node. -/
private def readNode (place : Place) : Nat → Reader Node
  | 0 => tooDeep
  | fuel + 1 => do
    let first ← peek
    match first.kind with
    | .alias name => readAlias name first.start
    | _ =>
      let (p, token) ← readProperties first
      let tag ← fullTag p
      let seqTag := collectionTag tag "!!seq"
      let mapTag := collectionTag tag "!!map"
      match token.kind, place.block, place.indentless with
      | .blockEntry, _, true =>
        let id ← reserve p.anchor
        keep id (.sequence (← readIndentless fuel) seqTag p.start)
      | .scalar text isPlain, _, _ =>
        skip
        keep (← reserve p.anchor) (.scalar text (scalarTag tag text isPlain) p.start)
      | .flowSequenceStart, _, _ =>
        let id ← reserve p.anchor
        skip
        keep id (.sequence (← readFlowSequence token.start true fuel) seqTag p.start)
      | .flowMappingStart, _, _ =>
        let id ← reserve p.anchor
        skip
        keep id (.mapping (← readFlowMapping token.start true fuel) mapTag p.start)
      | .blockSequenceStart, true, _ =>
        let id ← reserve p.anchor
        skip
        keep id (.sequence (← readBlockSequence token.start fuel) seqTag p.start)
      | .blockMappingStart, true, _ =>
        let id ← reserve p.anchor
        skip
        keep id (.mapping (← readBlockMapping token.start fuel) mapTag p.start)
      | _, _, _ =>
        if p.anchor.isSome || tag ≠ "" then
          keep (← reserve p.anchor) (.scalar "" (scalarTag tag "" true) p.start)
        else fail (some p.start) "did not find expected node content" token.start

/-- Read the entries of a block sequence. -/
private def readBlockSequence (start : Mark) : Nat → Reader (List Node)
  | 0 => tooDeep
  | fuel + 1 => do
    let token ← peek
    match token.kind with
    | .blockEntry =>
      let next ← skipPeek
      let item ← match next.kind with
        | .blockEntry | .blockEnd => pure (emptyScalar token.stop)
        | _ => readNode { block := true } fuel
      return item :: (← readBlockSequence start fuel)
    | .blockEnd => skip; return []
    | _ => fail (some start) "did not find expected '-' indicator" token.start

/-- Read the entries of a sequence at the column of the mapping around it. -/
private def readIndentless : Nat → Reader (List Node)
  | 0 => tooDeep
  | fuel + 1 => do
    let token ← peek
    match token.kind with
    | .blockEntry =>
      let next ← skipPeek
      let item ← match next.kind with
        | .blockEntry | .key | .value | .blockEnd => pure (emptyScalar token.stop)
        | _ => readNode { block := true } fuel
      return item :: (← readIndentless fuel)
    | _ => return []

/-- Read the entries of a block mapping. -/
private def readBlockMapping (start : Mark) : Nat → Reader (List (Node × Node))
  | 0 => tooDeep
  | fuel + 1 => do
    let token ← peek
    match token.kind with
    | .key =>
      let next ← skipPeek
      let key ← match next.kind with
        | .key | .value | .blockEnd => pure (emptyScalar token.stop)
        | _ => readNode { block := true, indentless := true } fuel
      let value ← readBlockValue fuel
      return (key, value) :: (← readBlockMapping start fuel)
    | .blockEnd => skip; return []
    | _ => fail (some start) "did not find expected key" token.start

/-- Read the value of a key in a block mapping. -/
private def readBlockValue : Nat → Reader Node
  | 0 => tooDeep
  | fuel + 1 => do
    let token ← peek
    match token.kind with
    | .value =>
      let next ← skipPeek
      match next.kind with
      | .key | .value | .blockEnd => return emptyScalar token.stop
      | _ => readNode { block := true, indentless := true } fuel
    | _ => return emptyScalar token.start

/-- Read the entries of a flow sequence.  An entry with a key is a mapping. -/
private def readFlowSequence (start : Mark) (first : Bool) : Nat → Reader (List Node)
  | 0 => tooDeep
  | fuel + 1 => do
    let token ← peek
    if token.kind == .flowSequenceEnd then
      skip
      return []
    let token ←
      if first then pure token
      else if token.kind == .flowEntry then skipPeek
      else fail (some start) "did not find expected ',' or ']'" token.start
    match token.kind with
    | .flowSequenceEnd => skip; return []
    | .key =>
      skip
      let key ← readFlowPairKey fuel
      let value ← readFlowPairValue fuel
      let pair := Node.mapping [(key, value)] "!!map" token.start
      return pair :: (← readFlowSequence start false fuel)
    | _ =>
      let item ← readNode { block := false } fuel
      return item :: (← readFlowSequence start false fuel)

/-- Read the key of a pair in a flow sequence. -/
private def readFlowPairKey : Nat → Reader Node
  | 0 => tooDeep
  | fuel + 1 => do
    let token ← peek
    match token.kind with
    | .value | .flowEntry | .flowSequenceEnd =>
      skip
      return emptyScalar token.stop
    | _ => readNode { block := false } fuel

/-- Read the value of a pair in a flow sequence. -/
private def readFlowPairValue : Nat → Reader Node
  | 0 => tooDeep
  | fuel + 1 => do
    let token ← peek
    match token.kind with
    | .value =>
      let next ← skipPeek
      match next.kind with
      | .flowEntry | .flowSequenceEnd => return emptyScalar next.start
      | _ => readNode { block := false } fuel
    | _ => return emptyScalar token.start

/-- Read the entries of a flow mapping. -/
private def readFlowMapping (start : Mark) (first : Bool) : Nat → Reader (List (Node × Node))
  | 0 => tooDeep
  | fuel + 1 => do
    let token ← peek
    if token.kind == .flowMappingEnd then
      skip
      return []
    let token ←
      if first then pure token
      else if token.kind == .flowEntry then skipPeek
      else fail (some start) "did not find expected ',' or '\x7d'" token.start
    match token.kind with
    | .flowMappingEnd => skip; return []
    | .key =>
      let next ← skipPeek
      let key ← match next.kind with
        | .value | .flowEntry | .flowMappingEnd => pure (emptyScalar next.start)
        | _ => readNode { block := false } fuel
      let value ← readFlowValue fuel
      return (key, value) :: (← readFlowMapping start false fuel)
    | _ =>
      let key ← readNode { block := false } fuel
      let next ← peek
      return (key, emptyScalar next.start) :: (← readFlowMapping start false fuel)

/-- Read the value of a key in a flow mapping. -/
private def readFlowValue : Nat → Reader Node
  | 0 => tooDeep
  | fuel + 1 => do
    let token ← peek
    match token.kind with
    | .value =>
      let next ← skipPeek
      match next.kind with
      | .flowEntry | .flowMappingEnd => return emptyScalar next.start
      | _ => readNode { block := false } fuel
    | _ => return emptyScalar token.start

end

/-- Take in the directives in front of a document. -/
private def readDirectives (version : Bool) : Nat → Reader Token
  | 0 => tooDeep
  | fuel + 1 => do
    let token ← peek
    match token.kind with
    | .directive (.version major minor) =>
      if version then fail none "found duplicate %YAML directive" token.start
      if major ≠ 1 || minor ≠ 1 then fail none "found incompatible YAML document" token.start
      skip
      readDirectives true fuel
    | .directive (.tag handle replacement) =>
      if ((← get).handles.lookup handle).isSome then
        fail none "found duplicate %TAG directive" token.start
      modify fun r => { r with handles := r.handles ++ [(handle, replacement)] }
      skip
      readDirectives version fuel
    | _ => return token

/-- The handles that every document may use. -/
def standardHandles : List (String × String) := [("!", "!"), ("!!", "tag:yaml.org,2002:")]

/-- Read the first document, if there is one. -/
private def readFirst (fuel : Nat) : Reader (Option Node) := do
  let first ← peek
  let standard := modify fun r => { r with handles := r.handles ++ standardHandles }
  match first.kind with
  | .streamEnd => return none
  | .directive _ | .documentStart =>
    let token ← readDirectives false fuel
    standard
    if token.kind ≠ .documentStart then
      fail none "did not find expected <document start>" token.start
    let next ← skipPeek
    match next.kind with
    | .directive _ | .documentStart | .documentEnd | .streamEnd =>
      return some (emptyScalar next.start)
    | _ => return some (← readNode { block := true } fuel)
  | _ =>
    standard
    return some (← readNode { block := true } fuel)

/-- Read the first document of a text; a text without a document has none. -/
def read (text : String) : Except SyntaxError (Option Document) := do
  let tokens ← TokenStream.ofText text
  -- Each character leads to at most three tokens, and each token to one call.
  let fuel := 4 * text.length + 16
  let (root, r) ← (do
    let root ← readFirst fuel
    -- The document is complete once the token behind it is known.
    let _ ← peek
    return root : Reader (Option Node)).run { tokens }
  return root.map fun root => { root, anchored := r.anchored }

end Document

end Cosim.Yaml
