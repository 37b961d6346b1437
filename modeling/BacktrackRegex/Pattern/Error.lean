/-!
# Compile errors

Why a pattern is no regular expression, and where: the position is the byte offset at which the
trouble was found.

* `CompileError.message` — the wording.
-/

set_option autoImplicit false

namespace BacktrackRegex

/-- The two ways in which a pattern can be wrong. -/
inductive CompileCause where
  /-- Something the grammar has no place for. -/
  | unsupportedSyntax
  /-- Repetition bounds that are out of order or do not fit in 32 bits. -/
  | invalidRepetition
  deriving DecidableEq, Repr

/-- What a pattern fails with. -/
structure CompileError where
  cause : CompileCause
  pattern : String
  position : Nat
  deriving DecidableEq, Repr

/-- What a cause is called in a message. -/
def CompileCause.title : CompileCause → String
  | .unsupportedSyntax => "unsupported regex syntax"
  | .invalidRepetition => "invalid repetition bounds"

/-- The wording of a compile error. -/
def CompileError.message (e : CompileError) : String :=
  e.cause.title ++ " in `" ++ e.pattern ++ "` at byte " ++ toString e.position

end BacktrackRegex
