import BacktrackRegex.Search.Limits
import BacktrackRegex.Search.Step
import BacktrackRegex.Trace.Replay

/-!
# Running a search

A search executes instructions until the regex matches, until no path is left, or until a limit
stands in the way.  The steps are counted in a 64-bit word and iterations in 32-bit words; a count
that would leave its word ends the search with a fault, so a search ends in any case.

* `Program.search` — from the initial state to the end of the search;
* `Program.run` — the trace of the match that the search finds;
* `Regex.run` — the same for a regex whose program is used only once.
-/

set_option autoImplicit false

namespace BacktrackRegex

/-- The step counter stays below this number. -/
def stepCapacity : Nat := 18446744073709551616

/-- Iteration counts stay below this number. -/
def countCapacity : Nat := 4294967296

/-- How a search ends. -/
inductive Ending where
  /-- With a match. -/
  | matched (s : State)
  /-- With no path left. -/
  | failed (s : State)
  /-- At a limit. -/
  | exhausted (e : Exhaustion)
  /-- With a fault. -/
  | broken (fault : Fault)
  deriving DecidableEq, Repr

namespace Program

/-- Executing the present instruction would take an iteration count out of its word. -/
def countOverflows (p : Program) (s : State) : Bool :=
  match p.code[s.pc]? with
  | some (.loopEnd slot _) =>
    match s.counters[slot]? with
    | some counter => countCapacity ≤ counter.count + 1
    | none => false
  | _ => false

/-- The search from a state that is reached after `steps` instructions. -/
def searchFrom (p : Program) (text : Array Char) (limits : Limits) (steps : Nat) (s : State) :
    Ending :=
  if _h : steps + 1 < stepCapacity then
    match limits.check (steps + 1) s.stack.size with
    | some e => .exhausted e
    | none =>
      if p.countOverflows s then .broken .counterOverflow
      else
        match p.step text s with
        | .running s' => p.searchFrom text limits (steps + 1) s'
        | .matched s' => .matched s'
        | .failed s' => .failed s'
        | .broken f => .broken f
  else .broken .stepOverflow
termination_by stepCapacity - steps

/-- The search of the program in a text, from its start. -/
def search (p : Program) (text : Array Char) (limits : Limits) : Ending :=
  p.searchFrom text limits 0 (.initial p.slots)

/-- The trace of the match that ends in this state; its end has to be an offset, the one where the
search ended, and no choice may be left over. -/
def replay (p : Program) (s : State) : Except Fault Trace :=
  match p.regex.replayer.run 0 s.choices.toList with
  | .error f => .error f
  | .ok (t, rest) =>
    match t.span.checkedStop with
    | .error f => .error f
    | .ok stop => if stop = s.pos ∧ rest.isEmpty then .ok t else .error .replayMismatch

/-- The match at the start of the text: its trace, no match, or the limit that ended the search. -/
def run (p : Program) (text : Array Char) (limits : Limits) :
    Except Fault (Except Exhaustion (Option Trace)) :=
  match p.search text limits with
  | .matched s =>
    match p.replay s with
    | .error f => .error f
    | .ok t => .ok (.ok (some t))
  | .failed _ => .ok (.ok none)
  | .exhausted e => .ok (.error e)
  | .broken f => .error f

end Program

/-- The match of a regex at the start of the text. -/
def Regex.run (r : Regex) (text : Array Char) (limits : Limits) :
    Except Fault (Except Exhaustion (Option Trace)) :=
  (Program.compile r).run text limits

end BacktrackRegex
