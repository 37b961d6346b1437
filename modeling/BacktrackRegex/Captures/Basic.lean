import BacktrackRegex.Fault

/-!
# Captures

The result of a successful match: entry 0 is the whole match, entry `i` is capturing group `i`.
Groups after the last one that took part are left out.
-/

set_option autoImplicit false

namespace BacktrackRegex

/-- The entries of a match. -/
structure Captures where
  entries : List (Option String)
  deriving DecidableEq, Repr

namespace Captures

/-- Number of entries. -/
def size (c : Captures) : Nat := c.entries.length

/-- There is no entry at all. -/
def isEmpty (c : Captures) : Bool := c.entries.isEmpty

/-- The text of entry `i`, if there is such an entry and it is present. -/
def get? (c : Captures) (i : Nat) : Option String := (c.entries[i]?).join

/-- The text that the whole regex matched. -/
def whole (c : Captures) : String := (c.get? 0).getD ""

/-- The text of entry `i`; asking for one that is not there is a fault. -/
def index (c : Captures) (i : Nat) : Except Fault String :=
  match c.get? i with
  | some text => .ok text
  | none => .error (.noCapture i)

end Captures

end BacktrackRegex
