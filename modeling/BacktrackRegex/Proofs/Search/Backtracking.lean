import BacktrackRegex.Proofs.Search.Thread

/-!
# Backtracking gives back whole threads

The machine has one set of counters and one choice log, and what waits on its stack is patched
together from them only when it is resumed.  Still every state stands for a list of threads that
share nothing: the present one, and those that wait, in the order in which they will be resumed
(`Program.threads`).

* `Program.Sound` — the entries of the stack belong to the program, and the log is long enough for
  each of them;
* `backtrack_spec` — backtracking leads to the first thread that waits and keeps all of them;
* `step_spec` — one instruction replaces the present thread by its successors.
-/

set_option autoImplicit false

namespace BacktrackRegex

variable {p : Program} {text : Array Char} {s s' : State}

/-! ## The threads of a state -/

/-- The entries on the stack, newest first. -/
def State.waiting (s : State) : List Pending := s.stack.toList.reverse

/-- The present thread. -/
def State.thread (s : State) : Thread := ⟨s.pc, s.pos, s.choices.toList, s.counters⟩

namespace Program

/-- The threads that wait in entries of the stack, given what the choice log and the counters hold
when the first of the entries comes up. -/
def pendingThreads (p : Program) (choices : List Choice) :
    Array Counter → List Pending → List Thread
  | _, [] => []
  | counters, .restore slot counter :: rest =>
    p.pendingThreads choices (counters.setIfInBounds slot counter) rest
  | counters, .stop exit pos logSize :: rest =>
    ⟨exit, pos, choices.take logSize ++ [.stop], counters⟩ ::
      p.pendingThreads choices counters rest
  | counters, .branch pc branch pos logSize :: rest =>
    (match p.code[pc]? with
      | some (.fork starts) =>
        (Thread.mk pc pos (choices.take logSize) counters).fork branch (starts.toList.drop branch)
      | _ => []) ++ p.pendingThreads choices counters rest

/-- The threads that wait in a state. -/
def waitingThreads (p : Program) (s : State) : List Thread :=
  p.pendingThreads s.choices.toList s.counters s.waiting

/-- All threads of a state, in the order in which they are followed. -/
def threads (p : Program) (s : State) : List Thread := s.thread :: p.waitingThreads s

/-- Entries, newest first, that can be taken off one by one when there are `slots` counters and the
log has `logSize` choices: each slot exists, each branch is one of an alternation, and each entry
that will be resumed remembers a shorter log than the entry before it. -/
def StackSound (p : Program) (slots : Nat) : Nat → List Pending → Prop
  | _, [] => True
  | logSize, .restore slot _ :: rest => slot < slots ∧ p.StackSound slots logSize rest
  | logSize, .stop _ _ size :: rest => size < logSize ∧ p.StackSound slots size rest
  | logSize, .branch pc branch _ size :: rest =>
    size < logSize ∧ (∃ starts, p.code[pc]? = some (.fork starts) ∧ branch < starts.size) ∧
      p.StackSound slots size rest

/-- What waits in a state can be resumed. -/
def Sound (p : Program) (s : State) : Prop :=
  p.StackSound s.counters.size s.choices.size s.waiting

/-- The step leads on to these threads, or fails if there are none. -/
def LeadsTo (p : Program) (ts : List Thread) : Progress → Prop
  | .running s => p.Sound s ∧ p.threads s = ts
  | .failed _ => ts = []
  | .matched _ => False
  | .broken _ => False

end Program

/-! ## The stack as a list -/

namespace State

@[simp] theorem waiting_push (s : State) (entry : Pending) :
    (s.push entry).waiting = entry :: s.waiting := by
  simp [waiting, push]

@[simp] theorem waiting_choose (s : State) (choice : Choice) :
    (s.choose choice).waiting = s.waiting := rfl

@[simp] theorem waiting_goto (s : State) (pc : Nat) : (s.goto pc).waiting = s.waiting := rfl

@[simp] theorem thread_push (s : State) (entry : Pending) : (s.push entry).thread = s.thread := rfl

@[simp] theorem thread_choose (s : State) (choice : Choice) :
    (s.choose choice).thread = s.thread.choose choice := by
  simp [thread, choose, Thread.choose]

@[simp] theorem thread_goto (s : State) (pc : Nat) : (s.goto pc).thread = s.thread.goto pc := rfl

@[simp] theorem choices_push (s : State) (entry : Pending) :
    (s.push entry).choices = s.choices := rfl

@[simp] theorem choices_choose (s : State) (choice : Choice) :
    (s.choose choice).choices = s.choices.push choice := rfl

@[simp] theorem choices_goto (s : State) (pc : Nat) : (s.goto pc).choices = s.choices := rfl

@[simp] theorem counters_push (s : State) (entry : Pending) :
    (s.push entry).counters = s.counters := rfl

@[simp] theorem counters_choose (s : State) (choice : Choice) :
    (s.choose choice).counters = s.counters := rfl

@[simp] theorem counters_goto (s : State) (pc : Nat) : (s.goto pc).counters = s.counters := rfl

theorem back?_of_waiting_nil (h : s.waiting = []) : s.stack.back? = none := by
  have hStack : s.stack = #[] := by simpa [waiting] using h
  simp [hStack]

/-- The state without its newest entry. -/
def pop (s : State) : State := { s with stack := s.stack.pop }

theorem waiting_pop {entry : Pending} {rest : List Pending} (h : s.waiting = entry :: rest) :
    s.stack.back? = some entry ∧ s.pop.waiting = rest := by
  have hList : s.stack.toList = rest.reverse ++ [entry] := by
    rw [← List.reverse_reverse s.stack.toList]
    change s.waiting.reverse = _
    rw [h, List.reverse_cons]
  constructor
  · rw [← Array.getLast?_toList, hList, List.getLast?_concat]
  · rw [waiting, pop, Array.toList_pop, hList, List.dropLast_concat, List.reverse_reverse]

end State

namespace Program

theorem StackSound.mono {slots m n : Nat} {entries : List Pending}
    (h : p.StackSound slots m entries) (hle : m ≤ n) : p.StackSound slots n entries := by
  induction entries with
  | nil => trivial
  | cons entry rest ih =>
    cases entry with
    | restore slot counter => exact ⟨h.1, ih h.2⟩
    | stop exit pos size => exact ⟨Nat.lt_of_lt_of_le h.1 hle, h.2⟩
    | branch pc branch pos size => exact ⟨Nat.lt_of_lt_of_le h.1 hle, h.2⟩

/-- Only the part of the log that the entries remember matters to them. -/
theorem pendingThreads_congr {slots size : Nat} {choices choices' : List Choice}
    {entries : List Pending} (h : p.StackSound slots size entries)
    (hTake : choices.take size = choices'.take size) (counters : Array Counter) :
    p.pendingThreads choices counters entries = p.pendingThreads choices' counters entries := by
  have shorter : ∀ {n m : Nat}, n < m → choices.take m = choices'.take m →
      choices.take n = choices'.take n := by
    intro n m hlt heq
    rw [← Nat.min_eq_left (Nat.le_of_lt hlt), ← List.take_take, ← List.take_take, heq]
  induction entries generalizing size counters with
  | nil => rfl
  | cons entry rest ih =>
    cases entry with
    | restore slot counter => exact ih h.2 hTake _
    | stop exit pos n =>
      simp only [pendingThreads]
      rw [shorter h.1 hTake, ih h.2 (shorter h.1 hTake)]
    | branch pc branch pos n =>
      simp only [pendingThreads]
      rw [shorter h.1 hTake, ih h.2.2 (shorter h.1 hTake)]

/-- A log that has been cut and gone on with looks the same to the entries below. -/
theorem pendingThreads_take_append {slots size : Nat} {choices : List Choice}
    {entries : List Pending} (h : p.StackSound slots size entries) (hSize : size ≤ choices.length)
    (more : List Choice) (counters : Array Counter) :
    p.pendingThreads (choices.take size ++ more) counters entries =
      p.pendingThreads choices counters entries := by
  refine pendingThreads_congr h ?_ counters
  rw [List.take_append_of_le_length (by rw [List.length_take]; omega), List.take_take, Nat.min_self]

theorem Sound.choose (h : p.Sound s) (choice : Choice) : p.Sound (s.choose choice) := by
  simpa [Sound] using StackSound.mono h (Nat.le_succ s.choices.size)

/-- Going on with the log changes nothing for the threads that wait. -/
theorem pendingThreads_append (h : p.Sound s) (more : List Choice) :
    p.pendingThreads (s.choices.toList ++ more) s.counters s.waiting = p.waitingThreads s := by
  have hBelow : p.StackSound s.counters.size s.choices.toList.length s.waiting := h
  have := pendingThreads_take_append hBelow (Nat.le_refl _) more s.counters
  rwa [List.take_length] at this

theorem waitingThreads_choose (h : p.Sound s) (choice : Choice) :
    p.waitingThreads (s.choose choice) = p.waitingThreads s := by
  rw [← pendingThreads_append h [choice]]
  simp [waitingThreads]

/-- Back at a shorter log, the entries that fit it wait as before. -/
theorem sound_truncate {size : Nat} (h : p.StackSound s.counters.size size s.waiting)
    (hSize : size ≤ s.choices.size) (pos : Nat) : p.Sound (s.truncate pos size) := by
  simpa [Sound, State.truncate, State.waiting, Nat.min_eq_left hSize] using h

theorem waitingThreads_truncate {size : Nat} (h : p.StackSound s.counters.size size s.waiting)
    (hSize : size ≤ s.choices.size) (pos : Nat) :
    p.waitingThreads (s.truncate pos size) = p.waitingThreads s := by
  have := pendingThreads_take_append h (by rwa [Array.length_toList]) [] s.counters
  simpa [waitingThreads, State.truncate, State.waiting] using this

@[simp] theorem waitingThreads_goto (s : State) (pc : Nat) :
    p.waitingThreads (s.goto pc) = p.waitingThreads s := rfl

/-! ## Leaving something waiting -/

/-- Going on while the exit of a loop waits. -/
theorem sound_push_stop {exit : Nat} (h : p.Sound s) (choice : Choice) :
    p.Sound ((s.push (.stop exit s.pos s.choices.size)).choose choice) := by
  simp only [Sound, State.waiting_choose, State.waiting_push, State.choices_choose,
    State.choices_push, State.counters_choose, State.counters_push, Array.size_push]
  exact ⟨Nat.lt_succ_self _, h⟩

theorem waitingThreads_push_stop {exit : Nat} (h : p.Sound s) (choice : Choice) :
    p.waitingThreads ((s.push (.stop exit s.pos s.choices.size)).choose choice) =
      (s.thread.choose .stop).goto exit :: p.waitingThreads s := by
  simp only [waitingThreads, State.waiting_choose, State.waiting_push, State.choices_choose,
    State.choices_push, State.counters_choose, State.counters_push, Array.toList_push,
    pendingThreads]
  rw [pendingThreads_append h [choice], ← Array.length_toList, List.take_left']
  · rfl
  · rfl

/-- Going on while a branch of the alternation waits. -/
theorem sound_push_branch {pc branch : Nat} {starts : Array Nat} (h : p.Sound s)
    (hFork : p.code[pc]? = some (.fork starts)) (hBranch : branch < starts.size) (choice : Choice) :
    p.Sound ((s.push (.branch pc branch s.pos s.choices.size)).choose choice) := by
  simp only [Sound, State.waiting_choose, State.waiting_push, State.choices_choose,
    State.choices_push, State.counters_choose, State.counters_push, Array.size_push]
  exact ⟨Nat.lt_succ_self _, ⟨starts, hFork, hBranch⟩, h⟩

theorem waitingThreads_push_branch {pc : Nat} {starts : Array Nat} (h : p.Sound s)
    (hFork : p.code[pc]? = some (.fork starts)) (branch : Nat) (choice : Choice) :
    p.waitingThreads ((s.push (.branch pc branch s.pos s.choices.size)).choose choice) =
      (s.thread.goto pc).fork branch (starts.toList.drop branch) ++ p.waitingThreads s := by
  simp only [waitingThreads, State.waiting_choose, State.waiting_push, State.choices_choose,
    State.choices_push, State.counters_choose, State.counters_push, Array.toList_push,
    pendingThreads, hFork]
  rw [pendingThreads_append h [choice], ← Array.length_toList, List.take_left']
  · rfl
  · rfl

/-! ## Taking a branch -/

/-- Where the threads of a fork stood before makes no difference. -/
theorem fork_goto (t : Thread) (pc branch : Nat) (starts : List Nat) :
    (t.goto pc).fork branch starts = t.fork branch starts := by
  induction starts generalizing branch with
  | nil => rfl
  | cons start starts ih => rw [Thread.fork, Thread.fork, ih]; rfl

/-- Taking a branch starts its thread and leaves those of the branches after it waiting. -/
theorem enterBranch_spec {pc branch : Nat} {starts : Array Nat} (hSound : p.Sound s)
    (hFork : p.code[pc]? = some (.fork starts)) (hBranch : branch < starts.size) :
    ∃ s', enterBranch pc starts branch s = .ok s' ∧ p.Sound s' ∧
      p.threads s' = s.thread.fork branch (starts.toList.drop branch) ++ p.waitingThreads s := by
  have hDrop : starts.toList.drop branch =
      starts[branch] :: starts.toList.drop (branch + 1) := by
    rw [List.drop_eq_getElem_cons (by simpa using hBranch), Array.getElem_toList]
  rw [hDrop]
  simp only [enterBranch, Array.getElem?_eq_getElem hBranch]
  refine ⟨_, rfl, ?_⟩
  by_cases hNext : branch + 1 < starts.size
  · rw [if_pos hNext]
    refine ⟨sound_push_branch hSound hFork hNext _, ?_⟩
    have hWaiting := waitingThreads_push_branch hSound hFork (branch + 1) (.branch branch)
    rw [fork_goto] at hWaiting
    rw [threads, Thread.fork, List.cons_append, ← hWaiting]
    simp [waitingThreads]
  · rw [if_neg hNext]
    have hLast : starts.toList.drop (branch + 1) = [] := by
      rw [List.drop_eq_nil_iff, Array.length_toList]
      omega
    refine ⟨hSound.choose _, ?_⟩
    rw [hLast, threads, Thread.fork, Thread.fork, List.cons_append, List.nil_append,
      ← waitingThreads_choose hSound (.branch branch)]
    simp [waitingThreads]

/-! ## Backtracking -/

theorem backtrack_of_restored (h : p.unwind s = .restored s') : p.backtrack s = p.backtrack s' := by
  rw [backtrack]
  split <;> simp_all

theorem backtrack_of_resumed (h : p.unwind s = .resumed s') : p.backtrack s = .running s' := by
  rw [backtrack]
  split <;> simp_all

theorem backtrack_of_nothing (h : p.unwind s = .nothing s') : p.backtrack s = .failed s' := by
  rw [backtrack]
  split <;> simp_all

/-- Backtracking goes on with the first of the threads that wait, and keeps the others. -/
theorem backtrack_spec (hSound : p.Sound s) : p.LeadsTo (p.waitingThreads s) (p.backtrack s) := by
  generalize hRest : s.waiting = entries
  induction entries generalizing s with
  | nil =>
    have hNothing : p.unwind s = .nothing s := by simp [unwind, State.back?_of_waiting_nil hRest]
    rw [backtrack_of_nothing hNothing]
    simp [LeadsTo, waitingThreads, hRest, pendingThreads]
  | cons entry rest ih =>
    obtain ⟨hBack, rfl⟩ := State.waiting_pop hRest
    have hStack : p.StackSound s.counters.size s.choices.size (entry :: s.pop.waiting) :=
      hRest ▸ hSound
    cases entry with
    | restore slot counter =>
      have hRestored : p.unwind s = .restored
          { s.pop with counters := s.counters.setIfInBounds slot counter } := by
        simp [unwind, hBack, hStack.1, State.pop]
      rw [backtrack_of_restored hRestored, waitingThreads, hRest, pendingThreads]
      refine ih ?_ rfl
      show p.StackSound (s.counters.setIfInBounds slot counter).size s.choices.size s.pop.waiting
      rw [Array.size_setIfInBounds]
      exact hStack.2
    | stop exit pos size =>
      have hResumed :
          p.unwind s = .resumed (((s.pop.truncate pos size).choose .stop).goto exit) := by
        simp [unwind, hBack, State.pop]
      have hCut := sound_truncate (s := s.pop) hStack.2 (Nat.le_of_lt hStack.1) pos
      rw [backtrack_of_resumed hResumed, waitingThreads, hRest, pendingThreads]
      refine ⟨hCut.choose _, ?_⟩
      have hThread : (((s.pop.truncate pos size).choose .stop).goto exit).thread =
          ⟨exit, pos, s.choices.toList.take size ++ [.stop], s.counters⟩ := by
        simp [State.thread, State.truncate, State.choose, State.goto, State.pop]
      have hWaiting := waitingThreads_choose hCut .stop
      rw [waitingThreads_truncate (s := s.pop) hStack.2 (Nat.le_of_lt hStack.1) pos] at hWaiting
      rw [threads, hThread]
      congr 1
    | branch pc branch pos size =>
      obtain ⟨hSize, ⟨starts, hFork, hBranch⟩, hBelow⟩ := hStack
      have hCut := sound_truncate (s := s.pop) hBelow (Nat.le_of_lt hSize) pos
      obtain ⟨s', hEnter, hSound', hThreads⟩ := enterBranch_spec hCut hFork hBranch
      have hResumed : p.unwind s = .resumed s' := by
        have hEnter' : enterBranch pc starts branch
            ({ s with stack := s.stack.pop }.truncate pos size) = .ok s' := hEnter
        simp [unwind, hBack, hFork, hEnter']
      rw [backtrack_of_resumed hResumed, waitingThreads, hRest, pendingThreads, hFork]
      refine ⟨hSound', ?_⟩
      rw [hThreads, waitingThreads_truncate (s := s.pop) hBelow (Nat.le_of_lt hSize) pos,
        ← fork_goto _ pc]
      congr 2
      simp [State.thread, State.truncate, State.pop, Thread.goto]

/-! ## One step -/

theorem setCounter?_eq {slot : Nat} (counter : Counter) (h : slot < s.counters.size) :
    s.setCounter? slot counter = some { s.push (.restore slot s.counters[slot]) with
      counters := s.counters.setIfInBounds slot counter } := by
  simp [State.setCounter?, Array.getElem?_eq_getElem h, State.push]

/-- Setting a counter leaves what is needed to take it back. -/
theorem setCounter?_spec {slot : Nat} (counter : Counter) (hSound : p.Sound s)
    (h : slot < s.counters.size) :
    ∃ s', s.setCounter? slot counter = some s' ∧ p.Sound s' ∧
      s'.thread = s.thread.setCounter slot counter ∧ p.waitingThreads s' = p.waitingThreads s := by
  refine ⟨_, setCounter?_eq counter h, ?_, rfl, ?_⟩
  · show p.StackSound (s.counters.setIfInBounds slot counter).size s.choices.size
      (s.push (.restore slot s.counters[slot])).waiting
    rw [Array.size_setIfInBounds, State.waiting_push]
    exact ⟨h, hSound⟩
  · show p.pendingThreads s.choices.toList (s.counters.setIfInBounds slot counter)
      (s.push (.restore slot s.counters[slot])).waiting = _
    rw [State.waiting_push, pendingThreads, Array.setIfInBounds_setIfInBounds, waitingThreads]
    simp [Array.setIfInBounds, h]

theorem step_accept (h : p.Accepts s.thread) : p.step text s = .matched s := by
  have hCode : p.code[s.pc]? = some .accept := h
  simp [step, hCode]

/-- At a loop head. -/
theorem loopHead_spec {slot : Nat} {counter : Counter} (hSound : p.Sound s)
    (hCounter : s.counters[slot]? = some counter) (q : Quantifier) (exit : Nat) :
    p.LeadsTo (headSuccessors q exit counter.count s.thread ++ p.waitingThreads s)
      (p.loopHead slot q exit s) := by
  simp only [loopHead, hCounter, headSuccessors]
  by_cases hMore : q.allowsMore counter.count <;> by_cases hStop : q.allowsStop counter.count
  · rw [if_pos hMore, if_pos hMore, if_pos hStop, if_pos hStop]
    refine ⟨sound_push_stop hSound _, ?_⟩
    rw [threads, waitingThreads_goto, waitingThreads_push_stop hSound, State.thread_goto,
      State.thread_choose, State.thread_push]
    rfl
  · rw [if_pos hMore, if_pos hMore, if_neg hStop, if_neg hStop]
    refine ⟨hSound.choose _, ?_⟩
    rw [threads, waitingThreads_goto, waitingThreads_choose hSound, State.thread_goto,
      State.thread_choose]
    rfl
  · rw [if_neg hMore, if_neg hMore, if_pos hStop, if_pos hStop]
    refine ⟨hSound.choose _, ?_⟩
    rw [threads, waitingThreads_goto, waitingThreads_choose hSound, State.thread_goto,
      State.thread_choose]
    rfl
  · rw [if_neg hMore, if_neg hMore, if_neg hStop, if_neg hStop]
    exact backtrack_spec hSound

/-- At the end of an iteration. -/
theorem loopEnd_spec {slot head slot' exit : Nat} {q : Quantifier} {counter : Counter}
    (hSound : p.Sound s) (hHead : p.code[head]? = some (.loopHead slot' q exit))
    (hCounter : s.counters[slot]? = some counter) :
    p.LeadsTo (endSuccessor q exit slot head counter s.thread :: p.waitingThreads s)
      (p.loopEnd slot head s) := by
  have hSlot : slot < s.counters.size := (Array.getElem?_eq_some_iff.1 hCounter).1
  obtain ⟨s', hSet, hSound', hThread, hWaiting⟩ :=
    setCounter?_spec ⟨counter.count + 1, s.pos⟩ hSound hSlot
  have hPos : s'.pos = s.thread.pos := congrArg Thread.pos hThread
  simp only [loopEnd, hHead, hCounter, hSet, endSuccessor]
  rw [← hWaiting, hPos]
  by_cases hEmpty : s.thread.pos = counter.start ∧ q.allowsStop (counter.count + 1)
  · rw [if_pos hEmpty, if_pos hEmpty]
    refine ⟨hSound'.choose _, ?_⟩
    rw [threads, waitingThreads_goto, waitingThreads_choose hSound', State.thread_goto,
      State.thread_choose, hThread]
    rfl
  · rw [if_neg hEmpty, if_neg hEmpty]
    refine ⟨hSound', ?_⟩
    rw [threads, waitingThreads_goto, State.thread_goto, hThread]
    rfl

/-- Taking a character, or failing to. -/
theorem char_spec (hSound : p.Sound s) {set : CharSet}
    (hCode : p.code[s.pc]? = some (.char set)) :
    p.LeadsTo ((if text[s.pos]?.any set.accepts then [s.thread.advance] else []) ++
      p.waitingThreads s) (p.step text s) := by
  simp only [step, hCode]
  cases hChar : text[s.pos]? with
  | none => simpa using backtrack_spec hSound
  | some c =>
    by_cases hAccepts : set.accepts c
    · simpa [hAccepts] using ⟨hSound, rfl⟩
    · simpa [hAccepts] using backtrack_spec hSound

/-- An instruction replaces the present thread by its successors. -/
theorem step_spec (text : Array Char) (hSound : p.Sound s) (hAccept : ¬ p.Accepts s.thread) :
    match p.successors text s.thread with
    | .ok ts => p.LeadsTo (ts ++ p.waitingThreads s) (p.step text s)
    | .error f => p.step text s = .broken f := by
  have hPc : s.thread.pc = s.pc := rfl
  have hCounters : s.thread.counters = s.counters := rfl
  cases hCode : p.code[s.pc]? with
  | none => simp [successors, step, hPc, hCode]
  | some instruction =>
    cases instruction with
    | char set =>
      simp only [successors, hPc, hCode]
      exact char_spec hSound hCode
    | fork starts =>
      simp only [successors, step, hPc, hCode]
      by_cases hEmpty : starts.size = 0
      · rw [if_pos hEmpty]
        simp [enterBranch, hEmpty]
      · rw [if_neg hEmpty]
        obtain ⟨s', hEnter, hSound', hThreads⟩ :=
          enterBranch_spec hSound hCode (Nat.pos_of_ne_zero hEmpty)
        rw [hEnter]
        exact ⟨hSound', hThreads⟩
    | jump target =>
      simp only [successors, step, hPc, hCode]
      exact ⟨hSound, rfl⟩
    | loopStart slot =>
      simp only [successors, step, hPc, hCode, hCounters]
      by_cases hSlot : slot < s.counters.size
      · obtain ⟨s', hSet, hSound', hThread, hWaiting⟩ := setCounter?_spec ⟨0, s.pos⟩ hSound hSlot
        rw [if_pos hSlot, hSet]
        refine ⟨hSound', ?_⟩
        have hPc' : s'.pc = s.pc := congrArg Thread.pc hThread
        rw [threads, waitingThreads_goto, State.thread_goto, hThread, hWaiting, hPc']
        rfl
      · rw [if_neg hSlot, State.setCounter?, Array.getElem?_eq_none (by omega)]
    | loopHead slot q exit =>
      simp only [successors, step, hPc, hCode, hCounters]
      cases hCounter : s.counters[slot]? with
      | none => simp [loopHead, hCounter]
      | some counter => exact loopHead_spec hSound hCounter q exit
    | loopEnd slot head =>
      simp only [successors, step, hPc, hCode, hCounters]
      cases hHead : p.code[head]? with
      | none => simp [loopEnd, hHead]
      | some target =>
        cases target with
        | loopHead slot' q exit =>
          cases hCounter : s.counters[slot]? with
          | none => simp [loopEnd, hHead, hCounter]
          | some counter => exact loopEnd_spec hSound hHead hCounter
        | _ => simp [loopEnd, hHead]
    | accept => exact absurd hCode hAccept

end Program

end BacktrackRegex
