/-!
# Log records

What a call writes to the log is part of its result.

* `LogRecord` — a message with its level;
* `Logged` — a value, and the records written on the way to it, oldest first.
-/

set_option autoImplicit false

namespace BacktrackRegex

/-- How much a record matters. -/
inductive LogLevel where
  | debug
  | trace
  | warn
  deriving DecidableEq, Repr

/-- A message in the log. -/
structure LogRecord where
  level : LogLevel
  message : String
  deriving DecidableEq, Repr

/-- A value together with what was written to the log. -/
structure Logged (α : Type) where
  value : α
  log : List LogRecord
  deriving DecidableEq, Repr

/-- Another value with the same records. -/
def Logged.map {α β : Type} (f : α → β) (l : Logged α) : Logged β := ⟨f l.value, l.log⟩

end BacktrackRegex
