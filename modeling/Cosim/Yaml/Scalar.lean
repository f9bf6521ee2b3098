import Cosim.Decimal.Read
import Cosim.Yaml.Timestamp

/-!
# What a plain scalar means

A plain scalar in a document is a null, a truth value, a number, a timestamp or
just text, depending on how it looks.  `Scalar.resolve` decides which.
-/

namespace Cosim.Yaml

/-- The meaning of a plain scalar. -/
inductive Scalar where
  | null
  | bool (value : Bool)
  | int (value : Int)
  | float (value : Decimal.Binary)
  | timestamp
  | text
deriving DecidableEq, Repr, Inhabited

namespace Scalar

private def words : List (String × Scalar) :=
  [ ("", .null), ("~", .null), ("null", .null), ("Null", .null), ("NULL", .null)
  , ("true", .bool true), ("True", .bool true), ("TRUE", .bool true)
  , ("false", .bool false), ("False", .bool false), ("FALSE", .bool false)
  , (".nan", .float .nan), (".NaN", .float .nan), (".NAN", .float .nan)
  , (".inf", .float (.infinite false)), (".Inf", .float (.infinite false))
  , (".INF", .float (.infinite false))
  , ("+.inf", .float (.infinite false)), ("+.Inf", .float (.infinite false))
  , ("+.INF", .float (.infinite false))
  , ("-.inf", .float (.infinite true)), ("-.Inf", .float (.infinite true))
  , ("-.INF", .float (.infinite true)) ]

/-- The text is a decimal number: a sign, digits with an optional point, and an
optional exponent. -/
private def looksDecimal (cs : List Char) : Bool :=
  let body := match cs with
    | '-' :: r => r
    | '+' :: r => r
    | _ => cs
  let whole := body.takeWhile Char.isDigit
  let rest := body.dropWhile Char.isDigit
  let (ok, rest) := match rest with
    | '.' :: r =>
      let fraction := r.takeWhile Char.isDigit
      (!whole.isEmpty || !fraction.isEmpty, r.dropWhile Char.isDigit)
    | _ => (!whole.isEmpty, rest)
  let exponent := match rest with
    | [] => true
    | c :: r =>
      let digits := match r with
        | '-' :: d => d
        | '+' :: d => d
        | _ => r
      (c == 'e' || c == 'E') && !digits.isEmpty && digits.all Char.isDigit
  ok && exponent

/-- An integer behind a mark for its base, where the digits may have a sign of
their own. -/
private def markedInt (cs : List Char) : Option Int :=
  let read (base : Nat) (digits : List Char) : Option Int :=
    match Numeral.signed base digits with
    | .ok n => some n
    | .error _ =>
      match Numeral.unsigned base digits with
      | .ok n => some n
      | .error _ => none
  match cs with
  | '0' :: 'b' :: digits => read 2 digits
  | '0' :: 'o' :: digits => read 8 digits
  | '-' :: '0' :: 'b' :: digits => (Numeral.signed 2 ('-' :: digits)).toOption
  | '-' :: '0' :: 'o' :: digits => (Numeral.signed 8 ('-' :: digits)).toOption
  | _ => none

/-- The meaning of a text that starts like a number. -/
private def numeric (cs : List Char) : Scalar :=
  if Timestamp.isTimestamp cs then .timestamp
  else
    let plain := cs.filter (· != '_')
    match Numeral.signedMarked plain with
    | .ok n => .int n
    | .error _ =>
      match Numeral.unsignedMarked plain with
      | .ok n => .int n
      | .error _ =>
        match (if looksDecimal plain then Decimal.read? plain else none) with
        | some x => .float x
        | none =>
          match markedInt plain with
          | some n => .int n
          | none => .text

/-- The meaning of a plain scalar. -/
def resolve (text : String) : Scalar :=
  match words.lookup text with
  | some s => s
  | none =>
    match text.toList with
    | [] => .null
    | c :: rest =>
      if c.isDigit || c == '+' || c == '-' then numeric (c :: rest)
      else if c == '.' then
        match Decimal.read? (c :: rest) with
        | some x => .float x
        | none => .text
      else .text

/-- The short name of the kind of a scalar. -/
def tag : Scalar → String
  | .null => "!!null"
  | .bool _ => "!!bool"
  | .int _ => "!!int"
  | .float _ => "!!float"
  | .timestamp => "!!timestamp"
  | .text => "!!str"

end Scalar

/-- The words that older documents may have meant as a truth value; they are
never written without quotes. -/
def isOldBool (text : String) : Bool :=
  ["y", "Y", "yes", "Yes", "YES", "on", "On", "ON",
    "n", "N", "no", "No", "NO", "off", "Off", "OFF"].contains text

/-- The words that are taken for a truth value where one is expected. -/
def oldBool? (text : String) : Option Bool :=
  if ["y", "Y", "yes", "on"].contains text then some true
  else if ["n", "N", "no", "off"].contains text then some false
  else none

/-- Groups of one or two digits, the first of two below six, each after a colon;
what follows them is returned. -/
private def sixtieths : Nat → List Char → List Char × Bool
  | 0, cs => (cs, false)
  | fuel + 1, cs =>
    match cs with
    | ':' :: a :: b :: rest =>
      if a.isDigit && b.isDigit && a ≤ '5' then ((sixtieths fuel rest).1, true)
      else if a.isDigit then ((sixtieths fuel (b :: rest)).1, true)
      else (cs, false)
    | [':', a] => if a.isDigit then ([], true) else (cs, false)
    | _ => (cs, false)

/-- The text is a number in base sixty, as older documents write times. -/
def isBase60 (text : String) : Bool :=
  let cs := text.toList
  let body := match cs with
    | '-' :: r => r
    | '+' :: r => r
    | _ => cs
  match body with
  | c :: rest =>
    c.isDigit &&
    (let rest := rest.dropWhile fun d => d.isDigit || d == '_'
     let (after, found) := sixtieths rest.length rest
     found &&
     (match after with
      | [] => true
      | '.' :: r => r.all fun d => d.isDigit || d == '_'
      | _ => false))
  | [] => false

end Cosim.Yaml
