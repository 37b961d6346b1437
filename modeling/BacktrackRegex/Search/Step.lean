import BacktrackRegex.Program.Code
import BacktrackRegex.Search.State

/-!
# One step of the machine

Executing one instruction either leads to a next state or fails, and a failed instruction makes the
machine backtrack: entries are taken off the stack, counters are given back, and the newest branch
or stop that waits is resumed.  Counts are natural numbers here; that they fit their words is
looked after where a search is run.

* `Program.unwind` — one entry taken off the stack;
* `Program.backtrack` — entries taken off until a choice is resumed or none is left;
* `Program.step` — one instruction.
-/

set_option autoImplicit false

namespace BacktrackRegex

/-- What a step leads to. -/
inductive Progress where
  /-- The search goes on. -/
  | running (s : State)
  /-- The regex has matched, up to the place where the state is. -/
  | matched (s : State)
  /-- The present path failed and nothing waits any more. -/
  | failed (s : State)
  /-- The program and the state do not belong together. -/
  | broken (fault : Fault)
  deriving DecidableEq, Repr

/-- What taking one entry off the stack leads to. -/
inductive Unwound where
  /-- A counter was given back; the search for a choice goes on. -/
  | restored (s : State)
  /-- A choice was resumed. -/
  | resumed (s : State)
  /-- The stack was empty. -/
  | nothing (s : State)
  /-- The entry does not belong to the program. -/
  | broken (fault : Fault)
  deriving DecidableEq, Repr

namespace Program

/-- Takes a branch of the alternation at `pc`, and leaves the next one, if there is one, waiting. -/
def enterBranch (pc : Nat) (starts : Array Nat) (branch : Nat) (s : State) : Except Fault State :=
  match starts[branch]? with
  | none => .error (.noBranch branch)
  | some start =>
    let waiting :=
      if branch + 1 < starts.size then s.push (.branch pc (branch + 1) s.pos s.choices.size) else s
    .ok ((waiting.choose (.branch branch)).goto start)

/-- Takes the newest entry off the stack and undoes or resumes it. -/
def unwind (p : Program) (s : State) : Unwound :=
  match s.stack.back? with
  | none => .nothing s
  | some entry =>
    let s := { s with stack := s.stack.pop }
    match entry with
    | .restore slot counter =>
      if slot < s.counters.size then
        .restored { s with counters := s.counters.setIfInBounds slot counter }
      else .broken (.noCounter slot)
    | .stop exit pos logSize => .resumed (((s.truncate pos logSize).choose .stop).goto exit)
    | .branch pc branch pos logSize =>
      match p.code[pc]? with
      | some (.fork starts) =>
        match enterBranch pc starts branch (s.truncate pos logSize) with
        | .ok s => .resumed s
        | .error f => .broken f
      | _ => .broken (.notAFork pc)

theorem unwind_restored_size {p : Program} {s s' : State} (h : p.unwind s = .restored s') :
    s'.stack.size < s.stack.size := by
  unfold unwind at h
  split at h
  · cases h
  · rename_i entry hBack
    have hPos : 0 < s.stack.size := by
      rcases Nat.eq_zero_or_pos s.stack.size with h0 | h0
      · simp [Array.eq_empty_of_size_eq_zero h0] at hBack
      · exact h0
    dsimp only at h
    split at h
    · split at h <;> cases h
      simpa using Nat.sub_lt hPos Nat.one_pos
    · cases h
    · split at h
      · split at h <;> cases h
      · cases h

/-- Takes entries off the stack until a choice is resumed. -/
def backtrack (p : Program) (s : State) : Progress :=
  match _h : p.unwind s with
  | .restored s' => p.backtrack s'
  | .resumed s' => .running s'
  | .nothing s' => .failed s'
  | .broken f => .broken f
termination_by s.stack.size
decreasing_by exact unwind_restored_size _h

/-- At the head of a loop: one more iteration if the quantifier allows it, with the exit waiting if
it allows that too; else the exit; else failure. -/
def loopHead (p : Program) (slot : Nat) (q : Quantifier) (exit : Nat) (s : State) : Progress :=
  match s.counters[slot]? with
  | none => .broken (.noCounter slot)
  | some counter =>
    if q.allowsMore counter.count then
      let waiting :=
        if q.allowsStop counter.count then s.push (.stop exit s.pos s.choices.size) else s
      .running ((waiting.choose .iterate).goto (waiting.pc + 1))
    else if q.allowsStop counter.count then .running ((s.choose .stop).goto exit)
    else p.backtrack s

/-- At the end of an iteration: the counter goes up, and the loop is left at once if the iteration
was empty and the quantifier allows it, since it would repeat forever. -/
def loopEnd (p : Program) (slot head : Nat) (s : State) : Progress :=
  match p.code[head]? with
  | some (.loopHead _ q exit) =>
    match s.counters[slot]? with
    | none => .broken (.noCounter slot)
    | some counter =>
      match s.setCounter? slot { count := counter.count + 1, start := s.pos } with
      | none => .broken (.noCounter slot)
      | some s' =>
        if s'.pos = counter.start ∧ q.allowsStop (counter.count + 1) then
          .running ((s'.choose .stop).goto exit)
        else .running (s'.goto head)
  | _ => .broken (.notALoop s.pc)

/-- Executes the instruction at the program counter. -/
def step (p : Program) (text : Array Char) (s : State) : Progress :=
  match p.code[s.pc]? with
  | none => .broken (.noInstruction s.pc)
  | some (.char set) =>
    match text[s.pos]? with
    | some c =>
      if set.accepts c then .running { s with pc := s.pc + 1, pos := s.pos + 1 } else p.backtrack s
    | none => p.backtrack s
  | some (.fork starts) =>
    match enterBranch s.pc starts 0 s with
    | .ok s' => .running s'
    | .error f => .broken f
  | some (.jump target) => .running (s.goto target)
  | some (.loopStart slot) =>
    match s.setCounter? slot { count := 0, start := s.pos } with
    | none => .broken (.noCounter slot)
    | some s' => .running (s'.goto (s'.pc + 1))
  | some (.loopHead slot q exit) => p.loopHead slot q exit s
  | some (.loopEnd slot head) => p.loopEnd slot head s
  | some .accept => .matched s

end Program

end BacktrackRegex
