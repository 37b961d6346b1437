import BacktrackRegex.Program.Code

/-!
# Emitting code in one pass

The code of a regex can be emitted while the regex is gone over once.  Where an instruction has to
name an address that is not known yet, it is emitted with a placeholder and patched later: the head
of a loop when its body has been emitted, an alternation and the jumps behind its branches when the
last branch has.

* `Emitter` — the instructions emitted so far, and the number of loop slots handed out;
* `Regex.emit` — the code of a regex behind what has been emitted;
* `Program.assemble` — a whole program.
-/

set_option autoImplicit false

namespace BacktrackRegex

/-- Code that is being emitted. -/
structure Emitter where
  code : Array Instruction := #[]
  /-- Number of loop slots that the code uses so far. -/
  slots : Nat := 0

namespace Emitter

/-- The address of the instruction that is emitted next. -/
def next (e : Emitter) : Nat := e.code.size

/-- Emits an instruction. -/
def push (e : Emitter) (instruction : Instruction) : Emitter :=
  { e with code := e.code.push instruction }

/-- Puts another instruction in the place of an emitted one. -/
def patch (e : Emitter) (address : Nat) (instruction : Instruction) : Emitter :=
  { e with code := e.code.setIfInBounds address instruction }

/-- Begins a loop with a slot of its own; the exit is a placeholder. -/
def openLoop (e : Emitter) (q : Quantifier) : Emitter :=
  ({ e with slots := e.slots + 1 }.push (.loopStart e.slots)).push (.loopHead e.slots q 0)

/-- Patches the exit of the loop whose head stands at this address. -/
def setExit (e : Emitter) (head exit : Nat) : Emitter :=
  match e.code[head]? with
  | some (.loopHead slot q _) => e.patch head (.loopHead slot q exit)
  | _ => e

/-- Ends the body of a loop, which is left to the instruction behind it. -/
def closeLoop (e : Emitter) (slot head : Nat) : Emitter :=
  let closed := e.push (.loopEnd slot head)
  closed.setExit head closed.next

/-- Patches the jumps at these addresses. -/
def aim (e : Emitter) (jumps : List Nat) (target : Nat) : Emitter :=
  jumps.foldl (fun e jump => e.patch jump (.jump target)) e

end Emitter

mutual

/-- Emits the code of a regex. -/
def Regex.emit : Regex → Emitter → Emitter
  | .seq items, e => emitItems items e
  | .alt branches, e =>
    match emitBranches branches (e.push (.fork #[])) with
    | (done, starts, jumps) => (done.aim jumps done.next).patch e.next (.fork starts.toArray)
  | .group _ body, e => body.emit e
  | .leaf set, e => e.push (.char set)

/-- Emits the items of a sequence, one loop after the other. -/
def emitItems : List (Regex × Quantifier) → Emitter → Emitter
  | [], e => e
  | (r, q) :: items, e => emitItems items ((r.emit (e.openLoop q)).closeLoop e.slots (e.next + 1))

/-- Emits the branches of an alternation, each followed by a jump whose target is a placeholder.
Gives with them the addresses at which they start, and those of the jumps. -/
def emitBranches : List Regex → Emitter → Emitter × List Nat × List Nat
  | [], e => (e, [], [])
  | r :: branches, e =>
    let branch := r.emit e
    match emitBranches branches (branch.push (.jump 0)) with
    | (done, starts, jumps) => (done, e.next :: starts, branch.next :: jumps)

end

/-- The program of a regex, emitted: its code, and `accept` behind it. -/
def Program.assemble (r : Regex) : Program :=
  let emitted := (r.emit {}).push .accept
  { regex := r, code := emitted.code, slots := emitted.slots }

end BacktrackRegex
