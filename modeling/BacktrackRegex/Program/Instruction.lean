import BacktrackRegex.CharSet
import BacktrackRegex.Quantifier

/-!
# Instructions

What the matching machine executes.  Targets are addresses, that is indices into the code of a
program.  Every item of a sequence, quantified or not, is a loop with a slot for its counter:

* `loopStart` sets the counter to zero;
* `loopHead` decides between one more iteration, whose code follows, and the exit;
* `loopEnd` closes an iteration and leads back to the head.
-/

set_option autoImplicit false

namespace BacktrackRegex

/-- One instruction of the matching machine. -/
inductive Instruction where
  /-- Take one character of the set. -/
  | char (set : CharSet)
  /-- Go on at the first of the addresses, and keep the others for later. -/
  | fork (starts : Array Nat)
  /-- Go on elsewhere. -/
  | jump (target : Nat)
  /-- Begin to repeat the item with this slot. -/
  | loopStart (slot : Nat)
  /-- One more iteration, or on to `exit`. -/
  | loopHead (slot : Nat) (quantifier : Quantifier) (exit : Nat)
  /-- The end of an iteration; `head` is the address of its `loopHead`. -/
  | loopEnd (slot : Nat) (head : Nat)
  /-- The whole regex has matched. -/
  | accept
  deriving DecidableEq, Repr

end BacktrackRegex
