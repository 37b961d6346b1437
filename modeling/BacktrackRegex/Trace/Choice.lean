/-!
# Choices

The decisions that a search takes.  Together with the regex, the choices along the path that
succeeded determine the whole match.
-/

set_option autoImplicit false

namespace BacktrackRegex

/-- A decision of the search. -/
inductive Choice where
  /-- Take this branch of the alternation. -/
  | branch (branch : Nat)
  /-- Repeat the item once more. -/
  | iterate
  /-- Repeat the item no more. -/
  | stop
  deriving DecidableEq, Repr

end BacktrackRegex
