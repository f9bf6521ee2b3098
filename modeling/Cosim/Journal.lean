/-!
# Journal entries

What a run says while it works: an entry has a level, a message and named
values.  A journal is the list of its entries, oldest first.
-/

namespace Cosim

/-- How important an entry is. -/
inductive Level where
  | error
  | warning
  | info
  | debug
deriving DecidableEq, Repr, Inhabited

/-- The name of a level. -/
def Level.name : Level → String
  | .error => "error"
  | .warning => "warning"
  | .info => "info"
  | .debug => "debug"

/-- A value in an entry. -/
inductive FieldValue where
  | word (value : UInt64)
  | int (value : Int)
  | real (value : Float)
  | text (value : String)
deriving Repr, Inhabited

/-- One thing said. -/
structure Entry where
  level : Level
  message : String
  fields : List (String × FieldValue) := []
deriving Repr, Inhabited

/-- Everything said, oldest first. -/
abbrev Journal := List Entry

end Cosim
