/-!
# Character sets

What a single-character piece of a regex accepts: any character at all, one given character, or
the members (or the non-members) of a class.
-/

set_option autoImplicit false

namespace BacktrackRegex

/-- The characters that a leaf of a regex accepts. -/
inductive CharSet where
  /-- Every character, line ends included. -/
  | any
  /-- One character. -/
  | only (c : Char)
  /-- The listed characters or, if `negated`, all others. -/
  | members (negated : Bool) (chars : List Char)
  deriving DecidableEq, Repr

/-- Membership in a character set. -/
def CharSet.accepts : CharSet → Char → Bool
  | .any, _ => true
  | .only d, c => d == c
  | .members negated chars, c => chars.contains c != negated

end BacktrackRegex
