/-!
# Timestamps

Which plain texts are timestamps: a date, or a date and a time of day.  Month,
day, hour, minute and second may have one digit.  A time after `T` or `t` needs a zone; a
time after a space has none.
-/

namespace Cosim.Yaml.Timestamp

/-- A number of one or two digits. -/
private def shortNumber : List Char → Option (Nat × List Char)
  | a :: b :: rest =>
    if a.isDigit then
      if b.isDigit then some ((a.toNat - 48) * 10 + (b.toNat - 48), rest)
      else some (a.toNat - 48, b :: rest)
    else none
  | [a] => if a.isDigit then some (a.toNat - 48, []) else none
  | [] => none

/-- A number of exactly two digits. -/
private def twoDigits : List Char → Option (Nat × List Char)
  | a :: b :: rest =>
    if a.isDigit && b.isDigit then some ((a.toNat - 48) * 10 + (b.toNat - 48), rest) else none
  | _ => none

private def expect (c : Char) : List Char → Option (List Char)
  | d :: rest => if c = d then some rest else none
  | [] => none

private def isLeap (year : Nat) : Bool :=
  year % 4 == 0 && (year % 100 != 0 || year % 400 == 0)

private def daysIn (year month : Nat) : Nat :=
  if month = 2 then (if isLeap year then 29 else 28)
  else if month = 4 ∨ month = 6 ∨ month = 9 ∨ month = 11 then 30
  else 31

/-- A date at the front of the text. -/
private def date (cs : List Char) : Option (List Char) := do
  let year := cs.take 4
  guard (year.length == 4 && year.all Char.isDigit)
  let rest ← expect '-' (cs.drop 4)
  let (month, rest) ← shortNumber rest
  guard (1 ≤ month && month ≤ 12)
  let rest ← expect '-' rest
  let (day, rest) ← shortNumber rest
  let year := year.foldl (fun n c => n * 10 + (c.toNat - 48)) 0
  guard (1 ≤ day && day ≤ daysIn year month)
  return rest

/-- A fraction of a second, if there is one. -/
private def fraction (cs : List Char) : List Char :=
  match cs with
  | mark :: d :: rest =>
    if (mark = '.' ∨ mark = ',') ∧ d.isDigit then rest.dropWhile Char.isDigit else cs
  | _ => cs

/-- A time of day at the front of the text. -/
private def clock (cs : List Char) : Option (List Char) := do
  let (hour, rest) ← shortNumber cs
  guard (hour < 24)
  let rest ← expect ':' rest
  let (minute, rest) ← shortNumber rest
  guard (minute < 60)
  let rest ← expect ':' rest
  let (second, rest) ← shortNumber rest
  guard (second < 60)
  return fraction rest

/-- A time zone that ends the text. -/
private def zone (cs : List Char) : Bool :=
  match cs with
  | ['Z'] => true
  | sign :: rest =>
    (sign = '+' || sign = '-') &&
    (match twoDigits rest with
     | some (hours, ':' :: rest) =>
       match twoDigits rest with
       | some (minutes, []) => decide (hours ≤ 24) && decide (minutes ≤ 60)
       | _ => false
     | _ => false)
  | [] => false

/-- The text is a timestamp. -/
def isTimestamp (cs : List Char) : Bool :=
  match date cs with
  | none => false
  | some [] => true
  | some (mark :: rest) =>
    if mark = 'T' ∨ mark = 't' then
      match clock rest with
      | some rest => zone rest
      | none => false
    else if mark = ' ' then clock (rest.dropWhile (· == ' ')) == some []
    else false

end Cosim.Yaml.Timestamp
