/-!
# Limits of a search

A search may be limited in the number of instructions it executes and in the number of entries that
wait on its backtrack stack.  Both are looked at before every instruction, the steps first, the
instruction about to be executed included.

* `Limits` — the two limits, each of them off if absent;
* `Exhaustion` — which limit ended a search;
* `Limits.check` — whether the search may go on.
-/

set_option autoImplicit false

namespace BacktrackRegex

/-- The limits of a search; an absent one does not count. -/
structure Limits where
  /-- The most instructions that may be executed. -/
  steps : Option Nat := none
  /-- The most entries that may wait on the backtrack stack. -/
  depth : Option Nat := none
  deriving DecidableEq, Repr

namespace Limits

/-- No limit at all. -/
def unlimited : Limits := {}

/-- The limits with at most `steps` instructions. -/
def withSteps (l : Limits) (steps : Nat) : Limits := { l with steps := some steps }

/-- The limits with at most `depth` waiting entries, or with any number of them. -/
def withDepth (l : Limits) (depth : Option Nat) : Limits := { l with depth }

end Limits

/-- The limit that a search ran into before it could decide. -/
inductive Exhaustion where
  | steps (limit : Nat)
  | depth (limit : Nat)
  deriving DecidableEq, Repr

/-- The wording of an exhausted search. -/
def Exhaustion.message : Exhaustion → String
  | .steps limit => s!"search exhausted: more than {limit} steps"
  | .depth limit => s!"search exhausted: more than {limit} pending backtrack entries"

/-- The entries on the stack are too many. -/
def Limits.checkDepth (l : Limits) (depth : Nat) : Option Exhaustion :=
  match l.depth with
  | some limit => if limit < depth then some (.depth limit) else none
  | none => none

/-- The limit that stands in the way of instruction number `steps` with `depth` entries waiting. -/
def Limits.check (l : Limits) (steps depth : Nat) : Option Exhaustion :=
  match l.steps with
  | some limit => if limit < steps then some (.steps limit) else l.checkDepth depth
  | none => l.checkDepth depth

end BacktrackRegex
