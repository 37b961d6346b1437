import BacktrackRegex.Fault
import BacktrackRegex.Trace.Choice

/-!
# States of the matching machine

The machine is at an instruction and at a place of the text.  It keeps the choices it has taken, a
counter for every loop slot, and a stack of what waits to be tried or undone when the present path
fails.  Nothing is copied for that: an entry remembers how long the choice log was, and every change
of a counter leaves an entry with its old value.

* `State` — a state; `State.initial` — where a search starts;
* `State.truncate`, `State.setCounter` — the two kinds of change that are undone later.
-/

set_option autoImplicit false

namespace BacktrackRegex

/-- How far a loop has come. -/
structure Counter where
  /-- Iterations finished. -/
  count : Nat := 0
  /-- Where in the text the present iteration started. -/
  start : Nat := 0
  deriving DecidableEq, Repr

/-- What waits on the backtrack stack. -/
inductive Pending where
  /-- Try this branch of the alternation at `pc`. -/
  | branch (pc branch pos logSize : Nat)
  /-- Repeat no more and go on at `exit`. -/
  | stop (exit pos logSize : Nat)
  /-- Give the slot its earlier counter back. -/
  | restore (slot : Nat) (counter : Counter)
  deriving DecidableEq, Repr

/-- A state of the machine. -/
structure State where
  /-- Address of the instruction to execute. -/
  pc : Nat
  /-- Index of the next character of the text. -/
  pos : Nat
  /-- The choices on the present path, oldest first. -/
  choices : Array Choice
  /-- What waits, newest last. -/
  stack : Array Pending
  /-- One counter for each loop slot. -/
  counters : Array Counter
  deriving DecidableEq, Repr

namespace State

/-- The start of a search with so many loop slots. -/
def initial (slots : Nat) : State where
  pc := 0
  pos := 0
  choices := #[]
  stack := #[]
  counters := Array.replicate slots {}

/-- The state at another instruction. -/
def goto (s : State) (pc : Nat) : State := { s with pc }

/-- The state with one more choice taken. -/
def choose (s : State) (choice : Choice) : State :=
  { s with choices := s.choices.push choice }

/-- The state with one more entry waiting. -/
def push (s : State) (entry : Pending) : State := { s with stack := s.stack.push entry }

/-- The state back at a place of the text, with only the first `logSize` choices taken. -/
def truncate (s : State) (pos logSize : Nat) : State :=
  { s with pos, choices := s.choices.shrink logSize }

/-- The state with a new counter in a slot, and the old one waiting to be restored; none if there is
no such slot. -/
def setCounter? (s : State) (slot : Nat) (counter : Counter) : Option State :=
  match s.counters[slot]? with
  | none => none
  | some old =>
    some { s with
      stack := s.stack.push (.restore slot old)
      counters := s.counters.setIfInBounds slot counter }

end State

end BacktrackRegex
