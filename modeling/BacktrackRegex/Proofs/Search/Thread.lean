import BacktrackRegex.Search.Step

/-!
# Threads

A thread is one path of a search taken by itself: where it stands, the choices that led there, and
counters of its own.  An instruction turns a thread into the threads that go on from it, the
preferred one first; none at all means that the path is at its end.

* `Thread` — a path by itself;
* `Program.successors` — what one instruction makes of a thread;
* `pos_le_of_successors` — which is at most one character further on.
-/

set_option autoImplicit false

namespace BacktrackRegex

/-- A path of the search by itself. -/
structure Thread where
  /-- Address of the instruction to execute. -/
  pc : Nat
  /-- Index of the next character of the text. -/
  pos : Nat
  /-- The choices on the path, oldest first. -/
  choices : List Choice
  /-- One counter for each loop slot. -/
  counters : Array Counter
  deriving DecidableEq, Repr

namespace Thread

/-- The start of a search with so many loop slots. -/
def initial (slots : Nat) : Thread := ⟨0, 0, [], Array.replicate slots {}⟩

/-- The thread at another instruction. -/
def goto (t : Thread) (pc : Nat) : Thread := { t with pc }

/-- The thread behind the character it stands at, at the next instruction. -/
def advance (t : Thread) : Thread := { t with pc := t.pc + 1, pos := t.pos + 1 }

/-- The thread with one more choice taken. -/
def choose (t : Thread) (choice : Choice) : Thread := { t with choices := t.choices ++ [choice] }

/-- The thread with a new counter in a slot. -/
def setCounter (t : Thread) (slot : Nat) (counter : Counter) : Thread :=
  { t with counters := t.counters.setIfInBounds slot counter }

/-- One thread for each of the addresses, which are those of the branches from `branch` on. -/
def fork (t : Thread) (branch : Nat) : List Nat → List Thread
  | [] => []
  | start :: starts => (t.choose (.branch branch)).goto start :: t.fork (branch + 1) starts

theorem mem_fork {t u : Thread} {branch : Nat} {starts : List Nat}
    (h : u ∈ t.fork branch starts) :
    u.pc ∈ starts ∧ u.pos = t.pos ∧ u.counters = t.counters := by
  induction starts generalizing branch with
  | nil => cases h
  | cons start starts ih =>
    rcases List.mem_cons.1 h with rfl | h
    · exact ⟨List.mem_cons_self, rfl, rfl⟩
    · obtain ⟨hPc, hRest⟩ := ih h
      exact ⟨List.mem_cons_of_mem start hPc, hRest⟩

end Thread

namespace Program

/-- The thread stands at `accept`. -/
def Accepts (p : Program) (t : Thread) : Prop := p.code[t.pc]? = some .accept

/-- The ways on from a loop head where so many iterations are done. -/
def headSuccessors (q : Quantifier) (exit count : Nat) (t : Thread) : List Thread :=
  (if q.allowsMore count then [(t.choose .iterate).goto (t.pc + 1)] else []) ++
    if q.allowsStop count then [(t.choose .stop).goto exit] else []

/-- The way on from the end of an iteration that began with this counter. -/
def endSuccessor (q : Quantifier) (exit slot head : Nat) (counter : Counter) (t : Thread) :
    Thread :=
  if t.pos = counter.start ∧ q.allowsStop (counter.count + 1) then
    ((t.setCounter slot ⟨counter.count + 1, t.pos⟩).choose .stop).goto exit
  else (t.setCounter slot ⟨counter.count + 1, t.pos⟩).goto head

/-- The threads that go on from a thread after one instruction, the preferred one first. -/
def successors (p : Program) (text : Array Char) (t : Thread) : Except Fault (List Thread) :=
  match p.code[t.pc]? with
  | none => .error (.noInstruction t.pc)
  | some (.char set) =>
    .ok (if text[t.pos]?.any set.accepts then [t.advance] else [])
  | some (.fork starts) =>
    if starts.size = 0 then .error (.noBranch 0) else .ok (t.fork 0 starts.toList)
  | some (.jump target) => .ok [t.goto target]
  | some (.loopStart slot) =>
    if slot < t.counters.size then .ok [(t.setCounter slot ⟨0, t.pos⟩).goto (t.pc + 1)]
    else .error (.noCounter slot)
  | some (.loopHead slot q exit) =>
    match t.counters[slot]? with
    | none => .error (.noCounter slot)
    | some counter => .ok (headSuccessors q exit counter.count t)
  | some (.loopEnd slot head) =>
    match p.code[head]? with
    | some (.loopHead _ q exit) =>
      match t.counters[slot]? with
      | none => .error (.noCounter slot)
      | some counter => .ok [endSuccessor q exit slot head counter t]
    | _ => .error (.notALoop t.pc)
  | some .accept => .ok []

theorem headSuccessors_pos {q : Quantifier} {exit count : Nat} {t u : Thread}
    (h : u ∈ headSuccessors q exit count t) : u.pos = t.pos := by
  rcases List.mem_append.1 h with h | h
  all_goals
    split at h
    · rw [List.mem_singleton.1 h]
      rfl
    · cases h

theorem endSuccessor_pos (q : Quantifier) (exit slot head : Nat) (counter : Counter) (t : Thread) :
    (endSuccessor q exit slot head counter t).pos = t.pos := by
  unfold endSuccessor
  split <;> rfl

/-- One instruction takes one character at most. -/
theorem pos_le_of_successors {p : Program} {text : Array Char} {t : Thread} {ts : List Thread}
    (h : p.successors text t = .ok ts) : ∀ u ∈ ts, u.pos ≤ t.pos + 1 := by
  intro u hu
  rw [successors] at h
  generalize p.code[t.pc]? = instruction? at h
  rcases instruction? with - | (set | starts | target | slot | ⟨slot, q, exit⟩ | ⟨slot, head⟩ | -)
  case none => cases h
  case some.char =>
    cases h
    split at hu
    · rw [List.mem_singleton.1 hu]
      exact Nat.le_refl _
    · cases hu
  case some.fork =>
    dsimp only at h
    split at h <;> cases h
    rw [(Thread.mem_fork hu).2.1]
    exact Nat.le_succ _
  case some.jump =>
    cases h
    rw [List.mem_singleton.1 hu]
    exact Nat.le_succ _
  case some.loopStart =>
    dsimp only at h
    split at h <;> cases h
    rw [List.mem_singleton.1 hu]
    exact Nat.le_succ _
  case some.loopHead =>
    dsimp only at h
    split at h <;> cases h
    rw [headSuccessors_pos hu]
    exact Nat.le_succ _
  case some.loopEnd =>
    dsimp only at h
    split at h
    · split at h <;> cases h
      rw [List.mem_singleton.1 hu, endSuccessor_pos]
      exact Nat.le_succ _
    · cases h
  case some.accept =>
    cases h
    cases hu

end Program

end BacktrackRegex
