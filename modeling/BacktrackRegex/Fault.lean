/-!
# Faults

Every part of the engine is a total function.  Where a part relies on something that another part
has to provide — an instruction at the program counter, a trace shaped like its regex, a counter
that still fits its word — and the promise is broken, the answer is a `Fault`, a value that says
which promise it was.

* `Fault` — the broken promises, one constructor each;
* `Fault.message?` — the text that a fault has for a caller, where it has one.
-/

set_option autoImplicit false

namespace BacktrackRegex

/-- A promise between two parts of the engine, or between the engine and its caller, that does not
hold. -/
inductive Fault where
  /-- Reading was to start at a byte offset that is not a character boundary of the pattern. -/
  | offBoundary (pos : Nat)
  /-- The program counter points outside the program. -/
  | noInstruction (pc : Nat)
  /-- A loop slot without a counter. -/
  | noCounter (slot : Nat)
  /-- A branch number that the alternation does not have. -/
  | noBranch (branch : Nat)
  /-- The end of a loop body that does not lead back to a loop head. -/
  | notALoop (pc : Nat)
  /-- A pending branch of something that is not an alternation. -/
  | notAFork (pc : Nat)
  /-- An iteration count that no longer fits its 32-bit word. -/
  | counterOverflow
  /-- A step count that no longer fits its 64-bit word. -/
  | stepOverflow
  /-- The choice log does not go on with a choice that the regex calls for. -/
  | unexpectedChoice
  /-- A span that would end before it starts. -/
  | backwardSpan
  /-- A span whose end no longer fits its 64-bit word. -/
  | offsetOverflow
  /-- The replayed trace ends elsewhere than the search, or leaves choices unread. -/
  | replayMismatch
  /-- A trace of another shape than the regex. -/
  | traceMismatch
  /-- A capturing group whose number is not its place in the capture list. -/
  | groupOutOfOrder (id : Nat)
  /-- A capture list of the wrong length. -/
  | captureCount
  /-- A span that leaves the text. -/
  | spanOutside
  /-- A capture was asked for that the list does not hold. -/
  | noCapture (index : Nat)
  deriving DecidableEq, Repr

/-- The text a fault has for the caller; only a bad capture index has one. -/
def Fault.message? : Fault → Option String
  | .noCapture index => some s!"no capture group at index {index}"
  | _ => none

/-! ## What a part of an answer says about the whole -/

section

variable {ε α β : Type} {x : Except ε α}

theorem toOption_eq_some_iff {a : α} : x.toOption = some a ↔ x = .ok a := by
  cases x <;> simp [Except.toOption]

theorem map_eq_error_iff {f : α → β} {e : ε} : x.map f = .error e ↔ x = .error e := by
  cases x <;> simp [Except.map]

theorem map_eq_ok_iff {f : α → β} {b : β} : x.map f = .ok b ↔ ∃ a, x = .ok a ∧ f a = b := by
  cases x <;> simp [Except.map]

theorem bind_eq_ok_iff {f : α → Except ε β} {b : β} :
    x.bind f = .ok b ↔ ∃ a, x = .ok a ∧ f a = .ok b := by
  cases x <;> simp [Except.bind]

theorem bind_eq_error_iff {f : α → Except ε β} {e : ε} :
    x.bind f = .error e ↔ x = .error e ∨ ∃ a, x = .ok a ∧ f a = .error e := by
  cases x <;> simp [Except.bind]

end

end BacktrackRegex
