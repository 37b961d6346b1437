import BacktrackRegex.Text.Decimal

/-!
# Arguments of the command line

The program is called with `-E` and a pattern, and then, if the search is to be limited, with
`--steps` and a number.

* `Arguments.ofList` — the arguments of a call, or what is wrong with them.
-/

set_option autoImplicit false

namespace BacktrackRegex

/-- What a call asks for. -/
structure Arguments where
  pattern : String
  /-- The most instructions that the search may execute. -/
  steps : Option Nat
  deriving DecidableEq, Repr

/-- What can be wrong with the arguments. -/
inductive ArgumentError where
  /-- The first argument is not `-E`. -/
  | noFlag
  /-- No pattern follows. -/
  | noPattern
  /-- No number follows `--steps`. -/
  | noSteps
  /-- What follows `--steps` is no number of 64 bits. -/
  | badSteps (cause : NumberError)
  /-- Something else than `--steps` follows the pattern. -/
  | unexpected (argument : String)
  deriving DecidableEq, Repr

/-- The wording of an argument error. -/
def ArgumentError.message : ArgumentError → String
  | .noFlag => "Expected first argument to be '-E'"
  | .noPattern => "missing pattern after '-E'"
  | .noSteps => "missing value after '--steps'"
  | .badSteps _ => "'--steps' expects a number"
  | .unexpected argument => "unexpected argument '" ++ argument ++ "'"

/-- What lies behind an argument error. -/
def ArgumentError.cause? : ArgumentError → Option String
  | .badSteps cause => some cause.message
  | _ => none

/-- Step limits on the command line stay below this number. -/
def stepLimitBound : Nat := 18446744073709551616

namespace Arguments

/-- The arguments after the pattern.  What follows the number of steps is not looked at. -/
def stepsOfList : List String → Except ArgumentError (Option Nat)
  | [] => .ok none
  | "--steps" :: arguments =>
    match arguments with
    | [] => .error .noSteps
    | value :: _ =>
      match parseBelow stepLimitBound value.toList with
      | .ok steps => .ok (some steps)
      | .error cause => .error (.badSteps cause)
  | argument :: _ => .error (.unexpected argument)

/-- The arguments of a call. -/
def ofList : List String → Except ArgumentError Arguments
  | "-E" :: arguments =>
    match arguments with
    | [] => .error .noPattern
    | pattern :: arguments =>
      match stepsOfList arguments with
      | .error e => .error e
      | .ok steps => .ok { pattern, steps }
  | _ => .error .noFlag

end Arguments

end BacktrackRegex
