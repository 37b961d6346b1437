/-!
# Decimal numbers

* `decimalValue` — the number that a run of ASCII digits denotes;
* `parseBelow` — a whole text as a number below a limit, with an optional leading `+`, and the
  reason why a text is not one.
-/

set_option autoImplicit false

namespace BacktrackRegex

/-- The value of an ASCII digit. -/
def digitValue (c : Char) : Nat := c.toNat - '0'.toNat

/-- The number that a run of digits denotes in base ten. -/
def decimalValue (digits : List Char) : Nat :=
  digits.foldl (fun n c => 10 * n + digitValue c) 0

/-- Why a text is not a number below the limit. -/
inductive NumberError where
  | empty
  | invalidDigit
  | tooLarge
  deriving DecidableEq, Repr

/-- The wording of a number error. -/
def NumberError.message : NumberError → String
  | .empty => "cannot parse integer from empty string"
  | .invalidDigit => "invalid digit found in string"
  | .tooLarge => "number too large to fit in target type"

/-- Digits read after a number `n`, left to right.  The first trouble met is the one reported: a
character that is no digit, or a number that has reached the limit. -/
def readDigitsBelow (limit : Nat) : Nat → List Char → Except NumberError Nat
  | n, [] => .ok n
  | n, c :: cs =>
    if c.isDigit then
      if 10 * n + digitValue c < limit then readDigitsBelow limit (10 * n + digitValue c) cs
      else .error .tooLarge
    else .error .invalidDigit

/-- A text as a decimal number below `limit`.  One leading `+` is allowed if a digit follows. -/
def parseBelow (limit : Nat) : List Char → Except NumberError Nat
  | [] => .error .empty
  | ['+'] => .error .invalidDigit
  | '+' :: cs => readDigitsBelow limit 0 cs
  | cs => readDigitsBelow limit 0 cs

end BacktrackRegex
