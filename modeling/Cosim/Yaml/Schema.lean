import Cosim.Hex
import Cosim.Text.Base64
import Cosim.Text.Utf8
import Cosim.Yaml.Node

/-!
# Reading records

A schema lists the keys that a record may have and what each of them holds.
`Schema.read` goes through the mapping of a document and collects one value for
every key it finds, in the order in which they take effect.

A value of the wrong kind, a key that is unknown or that is given twice is a
complaint: reading goes on, and all complaints are reported together.  A tag
that contradicts its value, or a hexadecimal number that cannot be read, ends
the reading at once.

A null leaves its key as if it were not there.  The key `<<` brings in the keys
of other mappings, as far as the mapping itself does not have them.
-/

namespace Cosim.Yaml

/-- What a key holds, and what becomes of it. -/
inductive FieldKind (α : Type) where
  | text (make : String → α)
  | int (make : Int → α)
  | bool (make : Bool → α)
  /-- A number in hexadecimal, with or without a mark. -/
  | hex (make : UInt64 → α)

/-- How a complaint names what a key holds. -/
def FieldKind.typeName {α : Type} : FieldKind α → String
  | .text _ => "string"
  | .int _ => "int"
  | .bool _ => "bool"
  | .hex _ => "cmd.HexUint64"

/-- The keys of a record. -/
structure Schema (α : Type) where
  /-- How a complaint names the record. -/
  typeName : String
  /-- A key outside the schema is a complaint. -/
  strict : Bool := true
  fields : List (String × FieldKind α)

namespace Schema

variable {α : Type}

/-- What was collected so far. -/
structure Collection (α : Type) where
  values : List α := []
  complaints : List String := []
  /-- The aliases that are being followed. -/
  following : List Mark := []
deriving Inhabited

/-- A step of reading a record. -/
abbrev Step (α : Type) := StateT (Collection α) (Except Error)

private def complain (message : String) : Step α Unit :=
  modify fun c => { c with complaints := c.complaints ++ [message] }

private def collect (value : α) : Step α Bool := do
  modify fun c => { c with values := c.values ++ [value] }
  return true

private def malformed {β : Type} (message : String) : Step α β := throw (.malformed message)

/-- A long value is cut. -/
private def shownValue (text : String) : String :=
  if 10 < text.utf8ByteSize then Text.takeBytes 7 text ++ "..." else text

/-- A node is not what its key holds. -/
private def mismatch (n : Node) (typeName : String) : Step α Bool := do
  let (tag, text) := match n with
    | .scalar text tag _ => (tag, text)
    | .sequence _ tag _ | .mapping _ tag _ => (tag, "")
    | .alias name _ _ => ("", name)
  let shown :=
    if tag == "!!seq" || tag == "!!map" then text else " `" ++ shownValue text ++ "`"
  complain s!"line {n.line}: cannot unmarshal {tag}{shown} into {typeName}"
  return false

/-- Go on with the node of an alias, unless that leads back to the alias. -/
private def follow {β : Type} (name : String) (place : Mark) (next : Step α β) : Step α β := do
  let c ← get
  if c.following.contains place then malformed s!"yaml: anchor '{name}' value contains itself"
  set { c with following := place :: c.following }
  let result ← next
  modify fun c => { c with following := c.following.erase place }
  return result

/-- The tags that a plain scalar can have by itself. -/
private def ownTags : List String :=
  ["!!str", "!!bool", "!!int", "!!float", "!!null", "!!timestamp"]

/-- What a scalar means under its tag, and its text. -/
def meaning (text tag : String) : Except Error (Scalar × String) :=
  if tag == "!!str" then .ok (.text, text)
  else if tag == "!!binary" then
    match Text.Base64.decode? text with
    | some bytes => .ok (.text, Text.ofBytes bytes)
    | none => .error (.malformed "yaml: !!binary value contains invalid base64 data")
  else if !ownTags.contains tag then .ok (.text, text)
  else
    let found := Scalar.resolve text
    if found.tag == tag then .ok (found, text)
    else
      match found, tag == "!!float" with
      | .int n, true =>
        match Decimal.Binary.ofRatio (n < 0) n.natAbs 1 with
        | some x => if n < Nat.pow 2 63 then .ok (.float x, text) else refused found.tag
        | none => refused found.tag
      | _, _ => refused found.tag
where
  refused (found : String) : Except Error (Scalar × String) :=
    .error (.malformed s!"yaml: cannot decode {found} `{text}` as a {tag}")

/-- The integer that a scalar means, if it fits into 64 bits.  A fraction is cut
off; a number that is far below the range counts as the least integer. -/
def intOf : Scalar → Option Int
  | .int n => if n < Nat.pow 2 63 then some n else none
  | .float .nan => none
  | .float (.infinite negative) => if negative then some (-Nat.pow 2 63) else none
  | .float (.finite negative m q) =>
    let n := Decimal.truncate negative m q
    if Nat.pow 2 63 < n then none
    else if n < -Nat.pow 2 63 ∨ n = Nat.pow 2 63 then some (-Nat.pow 2 63)
    else some n
  | _ => none

/-- The truth value that a scalar means. -/
def boolOf (s : Scalar) (text : String) : Option Bool :=
  match s with
  | .bool b => some b
  | .text => oldBool? text
  | _ => none

/-- Complain about every key that is written twice. -/
private def checkUnique (entries : List (Node × Node)) : Step α Bool := do
  let keys := entries.map fun (k, _) =>
    match k with
    | .scalar text _ _ => (0, text, k.line)
    | .sequence _ _ _ => (1, "", k.line)
    | .mapping _ _ _ => (2, "", k.line)
    | .alias name _ _ => (3, name, k.line)
  let twice := pairs keys
  twice.forM fun (first, second, text) =>
    complain s!"line {second}: mapping key {Text.quoted text} already defined at line {first}"
  return twice.isEmpty
where
  pairs : List (Nat × String × Nat) → List (Nat × Nat × String)
    | [] => []
    | (kind, text, line) :: rest =>
      rest.filterMap (fun (kind', text', line') =>
        if kind == kind' && text == text' then some (line, line', text') else none) ++ pairs rest

/-- Read the value of a key; the flag tells whether it counts. -/
private def readField (doc : Document) (kind : FieldKind α) : Nat → Node → Step α Bool
  | 0, _ => malformed "yaml: exceeded max depth"
  | fuel + 1, n => do
    match n with
    | .alias name target place =>
      follow name place (readField doc kind fuel (doc.anchored.getD target default))
    | .scalar text tag _ =>
      match kind, tag == "!!null" with
      | .hex make, false =>
        match Hex.parseSetting text with
        | .ok w => collect (make w)
        | .error e => throw (.within s!"line {n.line}" e)
      | _, _ =>
        let (s, text) ← meaning text tag
        match s, kind with
        | .null, _ => return false
        | _, .text make => collect (make text)
        | s, .int make =>
          match intOf s with
          | some i => collect (make i)
          | none => mismatch n kind.typeName
        | s, .bool make =>
          match boolOf s text with
          | some b => collect (make b)
          | none => mismatch n kind.typeName
        | _, .hex _ => mismatch n kind.typeName
    | .sequence _ tag _ =>
      match kind, tag == "!!null" with
      | .hex _, false => throw (.text s!"line {n.line}: max_instrs must be a scalar")
      | _, _ => mismatch n kind.typeName
    | .mapping entries tag _ =>
      match kind, tag == "!!null" with
      | .hex _, false => throw (.text s!"line {n.line}: max_instrs must be a scalar")
      | _, _ => if ← checkUnique entries then mismatch n kind.typeName else return false

/-- Read a key. -/
private def readName (doc : Document) : Nat → Node → Step α (Option String)
  | 0, _ => malformed "yaml: exceeded max depth"
  | fuel + 1, n => do
    match n with
    | .alias name target place =>
      follow name place (readName doc fuel (doc.anchored.getD target default))
    | .scalar text tag _ =>
      let (s, text) ← meaning text tag
      return if s == .null then none else some text
    | .sequence _ _ _ =>
      let _ ← mismatch n "string"
      return none
    | .mapping entries _ _ =>
      if ← checkUnique entries then
        let _ ← mismatch n "string"
      return none

/-- The key brings in other mappings. -/
private def isMerge : Node → Bool
  | .scalar text tag _ => text == "<<" && tag == "!!merge"
  | _ => false

/-- The keys of a mapping that are text. -/
private def ownNames (doc : Document) (fuel : Nat) (entries : List (Node × Node)) :
    Step α (List String) :=
  entries.filterMapM fun (k, _) =>
    match k with
    | .scalar text tag _ => do
      let (s, text) ← meaning text tag
      return if s == .text then some text else none
    | .alias _ _ _ => readName doc fuel k
    | _ => return none

private def wantMapping {β : Type} : Step α β :=
  malformed "yaml: map merge requires map or sequence of maps as the value"

private def isMapping (doc : Document) : Node → Bool
  | .mapping _ _ _ => true
  | .alias _ target _ =>
    match doc.anchored.getD target default with
    | .mapping _ _ _ => true
    | _ => false
  | _ => false

mutual

/-- Read a record.  `taken` are the keys that a mapping around it has already,
if the record is brought in by one; they are returned with those added. -/
private def readRecord (schema : Schema α) (doc : Document) :
    Nat → Node → Option (List String) → Step α (Option (List String))
  | 0, _, _ => malformed "yaml: exceeded max depth"
  | fuel + 1, n, taken => do
    match n with
    | .alias name target place =>
      follow name place (readRecord schema doc fuel (doc.anchored.getD target default) taken)
    | .scalar text tag _ =>
      let (s, _) ← meaning text tag
      if s != .null then
        let _ ← mismatch n schema.typeName
      return taken
    | .sequence _ _ _ =>
      let _ ← mismatch n schema.typeName
      return taken
    | .mapping entries _ _ =>
      if !(← checkUnique entries) then return taken
      let taken ← readEntries schema doc fuel [] taken entries
      match (entries.filter (isMerge ·.1)).getLast? with
      | none => return taken
      | some (_, value) =>
        let known ← match taken with
          | some names => pure names
          | none => ownNames doc fuel entries
        let known ← readMerge schema doc fuel known value
        return taken.map fun _ => known

/-- Read the entries of a mapping.  `done` are the keys it has given already. -/
private def readEntries (schema : Schema α) (doc : Document) :
    Nat → List String → Option (List String) → List (Node × Node) →
    Step α (Option (List String))
  | 0, _, _, _ => malformed "yaml: exceeded max depth"
  | _ + 1, _, taken, [] => return taken
  | fuel + 1, done, taken, (k, v) :: rest => do
    if isMerge k then return ← readEntries schema doc fuel done taken rest
    match ← readName doc fuel k with
    | none => readEntries schema doc fuel done taken rest
    | some name =>
      if taken.any (·.contains name) then return ← readEntries schema doc fuel done taken rest
      let taken := taken.map (name :: ·)
      match schema.fields.lookup name with
      | none =>
        if schema.strict then
          complain s!"line {k.line}: field {name} not found in type {schema.typeName}"
        readEntries schema doc fuel done taken rest
      | some kind =>
        if done.contains name then
          complain s!"line {k.line}: field {name} already set in type {schema.typeName}"
          readEntries schema doc fuel done taken rest
        else
          let _ ← readField doc kind fuel v
          readEntries schema doc fuel (name :: done) taken rest

/-- Read the mappings that a key brings in. -/
private def readMerge (schema : Schema α) (doc : Document) :
    Nat → List String → Node → Step α (List String)
  | 0, _, _ => malformed "yaml: exceeded max depth"
  | fuel + 1, known, n => do
    match n with
    | .sequence items _ _ => readMerges schema doc fuel known items
    | _ =>
      if !isMapping doc n then wantMapping
      return (← readRecord schema doc fuel n (some known)).getD known

/-- Read a list of mappings, of which the first to have a key wins. -/
private def readMerges (schema : Schema α) (doc : Document) :
    Nat → List String → List Node → Step α (List String)
  | 0, _, _ => malformed "yaml: exceeded max depth"
  | _ + 1, known, [] => return known
  | fuel + 1, known, item :: rest => do
    if !isMapping doc item then wantMapping
    let known := (← readRecord schema doc fuel item (some known)).getD known
    readMerges schema doc fuel known rest

end

/-- Collect the values of a document.  A text without a document has no values,
and says so by `none`. -/
def read (schema : Schema α) (text : String) : Except Error (Option (List α)) :=
  match Document.read text with
  | .error e => .error (.malformed e.message)
  | .ok none => .ok none
  | .ok (some doc) => do
    -- A walk that does not return to an alias it is following is no longer
    -- than the text.
    let fuel := 4 * (text.length + 4) * (doc.anchored.size + 1)
    let (_, c) ← (readRecord schema doc fuel doc.root none).run {}
    if c.complaints.isEmpty then return some c.values
    else throw (.text ("yaml: unmarshal errors:\n  " ++ "\n  ".intercalate c.complaints))

end Schema

end Cosim.Yaml
