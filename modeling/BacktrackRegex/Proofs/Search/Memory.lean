import BacktrackRegex.Proofs.Search.Budget

/-!
# Limits bound the memory of a search

The stack and the choice log are all that grows while a search goes on.  An instruction changes them
by several updates, one after the other, and backtracking takes entries off before it puts one on
again; so what has to be bounded are not only the states between instructions, but all that occur.

* `Program.moments` — the states that one instruction goes through, `moments_getLast?` — the last of
  them is the one that it leads to;
* `Program.Occurs` — the states that a search within limits goes through;
* `moments_grow` — no instruction adds more than one entry and one choice, at any moment;
* `memory_bounded` — neither the stack nor the log outgrows the instructions or the limits, and what
  waits to be resumed remembers ever longer parts of the log.
-/

set_option autoImplicit false

namespace BacktrackRegex

/-! ## Moments of an instruction -/

/-- How much of the choice log an entry remembers, if it resumes a choice. -/
def Pending.logSize? : Pending → Option Nat
  | .branch _ _ _ logSize => some logSize
  | .stop _ _ logSize => some logSize
  | .restore _ _ => none

namespace State

/-- How much of the choice log the entries to be resumed remember, from the bottom of the stack to
its top. -/
def logSizes (s : State) : List Nat := s.stack.toList.filterMap Pending.logSize?

/-- The states after each update that taking a branch makes: the next branch waits, and the choice
is logged. -/
def branchMoments (s : State) (pc : Nat) (starts : Array Nat) (branch : Nat) : List State :=
  let waiting :=
    if branch + 1 < starts.size then s.push (.branch pc (branch + 1) s.pos s.choices.size) else s
  [waiting, (waiting.choose (.branch branch)).goto (starts[branch]?.getD s.pc)]

/-- The state with a new counter in the slot and the old one waiting. -/
def recount (s : State) (slot : Nat) (old counter : Counter) : State :=
  { s.push (.restore slot old) with counters := s.counters.setIfInBounds slot counter }

end State

namespace Program

/-- The states while one entry is taken off the stack and undone or resumed. -/
def unwindMoments (p : Program) (s : State) : List State :=
  match s.stack.back? with
  | none => [s]
  | some (.restore _ _) => [s, s.pop]
  | some (.stop exit pos logSize) =>
    [s, s.pop, s.pop.truncate pos logSize,
      ((s.pop.truncate pos logSize).choose .stop).goto exit]
  | some (.branch pc branch pos logSize) =>
    [s, s.pop, s.pop.truncate pos logSize] ++
      match p.code[pc]? with
      | some (.fork starts) => (s.pop.truncate pos logSize).branchMoments pc starts branch
      | _ => []

/-- The states while entries are taken off the stack until a choice is resumed. -/
def backtrackMoments (p : Program) (s : State) : List State :=
  match _h : p.unwind s with
  | .restored s' => p.unwindMoments s ++ p.backtrackMoments s'
  | _ => p.unwindMoments s
termination_by s.stack.size
decreasing_by exact unwind_restored_size _h

/-- The states at the head of a loop. -/
def headMoments (p : Program) (slot : Nat) (q : Quantifier) (exit : Nat) (s : State) :
    List State :=
  match s.counters[slot]? with
  | none => [s]
  | some counter =>
    if q.allowsMore counter.count then
      let waiting :=
        if q.allowsStop counter.count then s.push (.stop exit s.pos s.choices.size) else s
      [s, waiting, (waiting.choose .iterate).goto (waiting.pc + 1)]
    else if q.allowsStop counter.count then [s, (s.choose .stop).goto exit]
    else p.backtrackMoments s

/-- The states at the end of an iteration. -/
def endMoments (p : Program) (slot head : Nat) (s : State) : List State :=
  match p.code[head]?, s.counters[slot]? with
  | some (.loopHead _ q exit), some counter =>
    let counted := s.recount slot counter ⟨counter.count + 1, s.pos⟩
    [s, s.push (.restore slot counter), counted,
      if s.pos = counter.start ∧ q.allowsStop (counter.count + 1) then
        (counted.choose .stop).goto exit
      else counted.goto head]
  | _, _ => [s]

/-- The states that the instruction at the program counter goes through, the one that it finds
first: one after each update of the stack, the choice log or a counter. -/
def moments (p : Program) (text : Array Char) (s : State) : List State :=
  match p.code[s.pc]? with
  | none => [s]
  | some (.char set) =>
    match text[s.pos]? with
    | some c =>
      if set.accepts c then [s, { s with pc := s.pc + 1, pos := s.pos + 1 }]
      else p.backtrackMoments s
    | none => p.backtrackMoments s
  | some (.fork starts) => s :: s.branchMoments s.pc starts 0
  | some (.jump target) => [s, s.goto target]
  | some (.loopStart slot) =>
    match s.counters[slot]? with
    | none => [s]
    | some old =>
      [s, s.push (.restore slot old), (s.recount slot old ⟨0, s.pos⟩).goto (s.pc + 1)]
  | some (.loopHead slot q exit) => p.headMoments slot q exit s
  | some (.loopEnd slot head) => p.endMoments slot head s
  | some .accept => [s]

/-- The state `s` occurs in a search within limits, by the time that `n` instructions have been
executed, the one that is being executed included. -/
inductive Occurs (p : Program) (text : Array Char) (limits : Limits) : Nat → State → Prop
  | initial : p.Occurs text limits 0 (.initial p.slots)
  | during {n : Nat} {s s' : State} (hState : p.stateAfter text n = some s)
    (hClears : p.Clears text limits (n + 1)) (hMoment : s' ∈ p.moments text s) :
    p.Occurs text limits (n + 1) s'

end Program

/-! ## Where an instruction leads -/

/-- The state that a step leads to, unless it is broken off. -/
def Progress.state? : Progress → Option State
  | .running s => some s
  | .matched s => some s
  | .failed s => some s
  | .broken _ => none

variable {p : Program} {text : Array Char} {limits : Limits} {s s' : State}

namespace Program

theorem branchMoments_getLast? {pc branch : Nat} {starts : Array Nat}
    (h : enterBranch pc starts branch s = .ok s') :
    (s.branchMoments pc starts branch).getLast? = some s' := by
  unfold enterBranch at h
  split at h
  · cases h
  · rename_i start hStart
    cases h
    simp [State.branchMoments, hStart]

theorem unwindMoments_getLast? (h : p.unwind s = .resumed s' ∨ p.unwind s = .nothing s') :
    (p.unwindMoments s).getLast? = some s' := by
  unfold unwind at h
  unfold unwindMoments
  cases hBack : s.stack.back? with
  | none => simpa [hBack] using h
  | some entry =>
    simp only [hBack] at h
    cases entry with
    | restore slot counter =>
      dsimp only at h
      split at h <;> simp at h
    | stop exit pos logSize => simpa [State.pop] using h
    | branch pc branch pos logSize =>
      obtain ⟨starts, hFork, hEnter⟩ : ∃ starts, p.code[pc]? = some (.fork starts) ∧
          enterBranch pc starts branch (s.pop.truncate pos logSize) = .ok s' := by
        dsimp only at h
        split at h
        · rename_i starts hFork
          split at h
          · rename_i s₁ hEnter
            obtain rfl : s₁ = s' := by simpa using h
            exact ⟨starts, hFork, hEnter⟩
          · simp at h
        · simp at h
      have hLast : ((s.pop.truncate pos logSize).branchMoments pc starts branch).getLast? =
          some s' := branchMoments_getLast? hEnter
      simp only [hFork, List.getLast?_append, hLast, Option.some_or]

theorem backtrackMoments_getLast? (h : (p.backtrack s).state? = some s') :
    (p.backtrackMoments s).getLast? = some s' := by
  fun_induction backtrack p s with
  | case1 s s₁ hUnwind ih =>
    rw [backtrackMoments]
    split
    · simp_all
    · simp_all
  | case2 s s₁ hUnwind =>
    cases h
    rw [backtrackMoments]
    split
    · simp_all
    · exact unwindMoments_getLast? (.inl hUnwind)
  | case3 s s₁ hUnwind =>
    cases h
    rw [backtrackMoments]
    split
    · simp_all
    · exact unwindMoments_getLast? (.inr hUnwind)
  | case4 => cases h

theorem headMoments_getLast? {slot exit : Nat} {q : Quantifier}
    (h : (p.loopHead slot q exit s).state? = some s') :
    (p.headMoments slot q exit s).getLast? = some s' := by
  unfold loopHead at h
  unfold headMoments
  cases hCounter : s.counters[slot]? with
  | none => simp [hCounter, Progress.state?] at h
  | some counter =>
    simp only [hCounter] at h ⊢
    split
    · rename_i hMore
      rw [if_pos hMore] at h
      exact h
    · rename_i hMore
      rw [if_neg hMore] at h
      split
      · rename_i hStop
        rw [if_pos hStop] at h
        exact h
      · rename_i hStop
        rw [if_neg hStop] at h
        exact backtrackMoments_getLast? h

theorem endMoments_getLast? {slot head : Nat} (h : (p.loopEnd slot head s).state? = some s') :
    (p.endMoments slot head s).getLast? = some s' := by
  unfold loopEnd at h
  unfold endMoments
  split at h
  · rename_i q exit hHead
    cases hCounter : s.counters[slot]? with
    | none => simp [hCounter, Progress.state?] at h
    | some counter =>
      simp only [hHead, hCounter, State.setCounter?] at h ⊢
      split at h
      · rename_i hEmpty
        rw [if_pos hEmpty]
        exact h
      · rename_i hEmpty
        rw [if_neg hEmpty]
        exact h
  · cases h

/-- The last moment of an instruction is the state that it leads to. -/
theorem moments_getLast? (h : (p.step text s).state? = some s') :
    (p.moments text s).getLast? = some s' := by
  unfold step at h
  unfold moments
  cases hCode : p.code[s.pc]? with
  | none => simp [hCode, Progress.state?] at h
  | some instruction =>
    simp only [hCode] at h
    cases instruction with
    | char set =>
      dsimp only at h ⊢
      cases hChar : text[s.pos]? with
      | none =>
        rw [hChar] at h
        exact backtrackMoments_getLast? h
      | some c =>
        simp only [hChar] at h ⊢
        split
        · rename_i hAccepts
          rw [if_pos hAccepts] at h
          exact h
        · rename_i hAccepts
          rw [if_neg hAccepts] at h
          exact backtrackMoments_getLast? h
    | fork starts =>
      dsimp only at h ⊢
      split at h
      · rename_i hEnter
        cases h
        rw [List.getLast?_cons, branchMoments_getLast? hEnter]
        rfl
      · cases h
    | jump target => exact h
    | loopStart slot =>
      simp only [State.setCounter?] at h
      cases hCounter : s.counters[slot]? with
      | none => simp [hCounter, Progress.state?] at h
      | some old =>
        simp only [hCounter] at h ⊢
        exact h
    | loopHead slot q exit => exact headMoments_getLast? h
    | loopEnd slot head => exact endMoments_getLast? h
    | accept => exact h

end Program

/-! ## What one update adds -/

namespace State

/-- The stack and the choice log of the state are no longer than this. -/
structure Holds (s : State) (entries choices : Nat) : Prop where
  stack : s.stack.size ≤ entries
  choices : s.choices.size ≤ choices

namespace Holds

variable {entries entries' choices choices' : Nat}

theorem refl (s : State) : s.Holds s.stack.size s.choices.size :=
  ⟨Nat.le_refl _, Nat.le_refl _⟩

theorem mono (h : s.Holds entries choices) (hEntries : entries ≤ entries')
    (hChoices : choices ≤ choices') : s.Holds entries' choices' :=
  ⟨Nat.le_trans h.stack hEntries, Nat.le_trans h.choices hChoices⟩

theorem grown (h : s.Holds entries choices) : s.Holds (entries + 1) (choices + 1) :=
  h.mono (Nat.le_succ entries) (Nat.le_succ choices)

theorem push (h : s.Holds entries choices) (entry : Pending) :
    (s.push entry).Holds (entries + 1) choices where
  stack := by simpa [State.push] using h.stack
  choices := h.choices

theorem choose (h : s.Holds entries choices) (choice : Choice) :
    (s.choose choice).Holds entries (choices + 1) where
  stack := h.stack
  choices := by simpa [State.choose] using h.choices

theorem goto (h : s.Holds entries choices) (pc : Nat) : (s.goto pc).Holds entries choices :=
  ⟨h.stack, h.choices⟩

theorem recount (h : s.Holds entries choices) (slot : Nat) (old counter : Counter) :
    (s.recount slot old counter).Holds (entries + 1) choices :=
  ⟨(h.push (.restore slot old)).stack, h.choices⟩

theorem truncate (h : s.Holds entries choices) (pos logSize : Nat) :
    (s.truncate pos logSize).Holds entries logSize where
  stack := h.stack
  choices := by simp [State.truncate]

end Holds

theorem waiting_of_back? {entry : Pending} (h : s.stack.back? = some entry) :
    s.waiting = entry :: s.pop.waiting := by
  cases hWaiting : s.waiting with
  | nil =>
    rw [back?_of_waiting_nil hWaiting] at h
    cases h
  | cons entry' rest =>
    obtain ⟨hBack, rfl⟩ := waiting_pop hWaiting
    rw [h] at hBack
    cases hBack
    rfl

/-- There is room for one entry where one was taken off. -/
theorem size_pop {entry : Pending} (h : s.stack.back? = some entry) :
    s.pop.stack.size + 1 = s.stack.size := by
  have hLength := congrArg List.length (waiting_of_back? h)
  simpa [waiting] using hLength.symm

/-- Taking a branch adds at most one entry and one choice. -/
theorem branchMoments_holds (s : State) (pc : Nat) (starts : Array Nat) (branch : Nat) :
    ∀ s' ∈ s.branchMoments pc starts branch, s'.Holds (s.stack.size + 1) (s.choices.size + 1) := by
  intro s' hMoment
  -- The next branch waits or not; either way the choice is all that the log gets.
  have hWaiting :
      (if branch + 1 < starts.size then s.push (.branch pc (branch + 1) s.pos s.choices.size)
        else s).Holds (s.stack.size + 1) s.choices.size := by
    split
    · exact (Holds.refl s).push _
    · exact (Holds.refl s).mono (Nat.le_succ _) (Nat.le_refl _)
  simp only [branchMoments, List.mem_cons, List.not_mem_nil, or_false] at hMoment
  rcases hMoment with rfl | rfl
  · exact hWaiting.mono (Nat.le_refl _) (Nat.le_succ _)
  · exact (hWaiting.choose _).goto _

end State

namespace Program

/-! ## What one instruction adds -/

/-- Only a counter that waits on top is given back without an end to backtracking. -/
theorem unwind_restored_eq (h : p.unwind s = .restored s') :
    ∃ slot counter, s.stack.back? = some (.restore slot counter) ∧
      s' = { s.pop with counters := s.counters.setIfInBounds slot counter } := by
  unfold unwind at h
  cases hBack : s.stack.back? with
  | none => simp [hBack] at h
  | some entry =>
    simp only [hBack] at h
    cases entry with
    | restore slot counter =>
      dsimp only at h
      split at h <;> cases h
      exact ⟨slot, counter, rfl, rfl⟩
    | stop exit pos logSize => cases h
    | branch pc branch pos logSize =>
      dsimp only at h
      split at h
      · split at h <;> cases h
      · cases h

/-- While one entry is taken off and resumed, neither the stack nor the log gets longer than it was
before. -/
theorem unwindMoments_holds (hSound : p.Sound s) :
    ∀ s' ∈ p.unwindMoments s, s'.Holds s.stack.size s.choices.size := by
  intro s' hMoment
  unfold unwindMoments at hMoment
  cases hBack : s.stack.back? with
  | none =>
    simp only [hBack, List.mem_singleton] at hMoment
    rw [hMoment]
    exact .refl s
  | some entry =>
    -- What is resumed goes on from a shorter log, with an entry less on the stack.
    have hSize := State.size_pop hBack
    have hPop : s.pop.Holds s.pop.stack.size s.choices.size := .refl s.pop
    have hPopped : s.pop.Holds s.stack.size s.choices.size :=
      hPop.mono (by omega) (Nat.le_refl _)
    simp only [Sound, State.waiting_of_back? hBack] at hSound
    cases entry with
    | restore slot counter =>
      simp only [hBack, List.mem_cons, List.not_mem_nil, or_false] at hMoment
      rcases hMoment with rfl | rfl
      · exact .refl _
      · exact hPopped
    | stop exit pos logSize =>
      have hLog : logSize < s.choices.size := hSound.1
      have hCut := hPop.truncate pos logSize
      simp only [hBack, List.mem_cons, List.not_mem_nil, or_false] at hMoment
      rcases hMoment with rfl | rfl | rfl | rfl
      · exact .refl _
      · exact hPopped
      · exact hCut.mono (by omega) (by omega)
      · exact ((hCut.choose .stop).goto exit).mono (by omega) (by omega)
    | branch pc branch pos logSize =>
      have hLog : logSize < s.choices.size := hSound.1
      have hCut := hPop.truncate pos logSize
      simp only [hBack, List.mem_append, List.mem_cons, List.not_mem_nil, or_false] at hMoment
      rcases hMoment with (rfl | rfl | rfl) | hMoment
      · exact .refl _
      · exact hPopped
      · exact hCut.mono (by omega) (by omega)
      · split at hMoment
        · have hBranch := State.branchMoments_holds _ pc _ branch s' hMoment
          have hStack := hCut.stack
          have hChoices := hCut.choices
          exact hBranch.mono (by omega) (by omega)
        · cases hMoment

theorem backtrackMoments_holds (hSound : p.Sound s) :
    ∀ s' ∈ p.backtrackMoments s, s'.Holds s.stack.size s.choices.size := by
  fun_induction backtrackMoments p s with
  | case1 s s₁ hUnwind ih =>
    obtain ⟨slot, counter, hBack, rfl⟩ := unwind_restored_eq hUnwind
    have hBelow : p.Sound { s.pop with counters := s.counters.setIfInBounds slot counter } := by
      have hStack := hSound
      simp only [Sound, State.waiting_of_back? hBack] at hStack
      show p.StackSound (s.counters.setIfInBounds slot counter).size s.choices.size s.pop.waiting
      rw [Array.size_setIfInBounds]
      exact hStack.2
    intro s' hMoment
    rcases List.mem_append.1 hMoment with hMoment | hMoment
    · exact unwindMoments_holds hSound s' hMoment
    · have hSize := State.size_pop hBack
      exact (ih hBelow s' hMoment).mono (by dsimp only; omega) (Nat.le_refl _)
  | case2 s hUnwind => exact unwindMoments_holds hSound

theorem headMoments_grow (hSound : p.Sound s) (slot : Nat) (q : Quantifier) (exit : Nat) :
    ∀ s' ∈ p.headMoments slot q exit s, s'.Holds (s.stack.size + 1) (s.choices.size + 1) := by
  intro s' hMoment
  have hStart := State.Holds.refl s
  unfold headMoments at hMoment
  split at hMoment
  · rw [List.mem_singleton.1 hMoment]
    exact hStart.grown
  · rename_i counter hCounter
    split at hMoment
    · have hWaiting :
          (if q.allowsStop counter.count then s.push (.stop exit s.pos s.choices.size)
            else s).Holds (s.stack.size + 1) s.choices.size := by
        split
        · exact hStart.push _
        · exact hStart.mono (Nat.le_succ _) (Nat.le_refl _)
      simp only [List.mem_cons, List.not_mem_nil, or_false] at hMoment
      rcases hMoment with rfl | rfl | rfl
      · exact hStart.grown
      · exact hWaiting.mono (Nat.le_refl _) (Nat.le_succ _)
      · exact (hWaiting.choose _).goto _
    · split at hMoment
      · simp only [List.mem_cons, List.not_mem_nil, or_false] at hMoment
        rcases hMoment with rfl | rfl
        · exact hStart.grown
        · exact ((hStart.choose _).goto _).mono (Nat.le_succ _) (Nat.le_refl _)
      · exact (backtrackMoments_holds hSound s' hMoment).grown

theorem endMoments_grow (slot head : Nat) :
    ∀ s' ∈ p.endMoments slot head s, s'.Holds (s.stack.size + 1) (s.choices.size + 1) := by
  intro s' hMoment
  have hStart := State.Holds.refl s
  unfold endMoments at hMoment
  split at hMoment
  · rename_i counter _ _
    simp only [List.mem_cons, List.not_mem_nil, or_false] at hMoment
    have hCounted := hStart.recount slot counter ⟨counter.count + 1, s.pos⟩
    rcases hMoment with rfl | rfl | rfl | rfl
    · exact hStart.grown
    · exact (hStart.push _).mono (Nat.le_refl _) (Nat.le_succ _)
    · exact hCounted.mono (Nat.le_refl _) (Nat.le_succ _)
    · split
      · exact (hCounted.choose _).goto _
      · exact (hCounted.goto _).mono (Nat.le_refl _) (Nat.le_succ _)
  · rw [List.mem_singleton.1 hMoment]
    exact hStart.grown

/-- At no moment of an instruction does the stack hold more than one entry, or the log more than one
choice, above what it held before the instruction. -/
theorem moments_grow (hSound : p.Sound s) :
    ∀ s' ∈ p.moments text s, s'.Holds (s.stack.size + 1) (s.choices.size + 1) := by
  intro s' hMoment
  have hStart := State.Holds.refl s
  unfold moments at hMoment
  split at hMoment
  case h_2 =>
    split at hMoment
    · split at hMoment
      · simp only [List.mem_cons, List.not_mem_nil, or_false] at hMoment
        rcases hMoment with rfl | rfl
        · exact hStart.grown
        · exact ⟨Nat.le_succ _, Nat.le_succ _⟩
      · exact (backtrackMoments_holds hSound s' hMoment).grown
    · exact (backtrackMoments_holds hSound s' hMoment).grown
  case h_3 =>
    rcases List.mem_cons.1 hMoment with rfl | hMoment
    · exact hStart.grown
    · exact s.branchMoments_holds _ _ _ s' hMoment
  case h_4 =>
    simp only [List.mem_cons, List.not_mem_nil, or_false] at hMoment
    rcases hMoment with rfl | rfl
    · exact hStart.grown
    · exact hStart.grown.goto _
  case h_5 =>
    split at hMoment
    · rw [List.mem_singleton.1 hMoment]
      exact hStart.grown
    · simp only [List.mem_cons, List.not_mem_nil, or_false] at hMoment
      rcases hMoment with rfl | rfl | rfl
      · exact hStart.grown
      · exact (hStart.push _).mono (Nat.le_refl _) (Nat.le_succ _)
      · exact ((hStart.recount _ _ _).goto _).mono (Nat.le_refl _) (Nat.le_succ _)
  case h_6 => exact headMoments_grow hSound _ _ _ s' hMoment
  case h_7 => exact endMoments_grow _ _ s' hMoment
  all_goals
    rw [List.mem_singleton.1 hMoment]
    exact hStart.grown

/-! ## Whole searches -/

/-- Each instruction executed has added one entry and one choice at most. -/
theorem holds_of_stateAfter {n : Nat} (h : p.stateAfter text n = some s) : s.Holds n n := by
  induction n generalizing s with
  | zero =>
    cases h
    exact ⟨Nat.le_refl _, Nat.le_refl _⟩
  | succ n ih =>
    obtain ⟨s₀, hState, hRunning⟩ := stateAfter_succ_eq_some h
    have hLast : (p.moments text s₀).getLast? = some s :=
      moments_getLast? (by rw [hRunning]; rfl)
    have hGrown := moments_grow (sound_of_stateAfter hState) s (List.mem_of_getLast? hLast)
    have hBefore := ih hState
    exact hGrown.mono (Nat.succ_le_succ hBefore.stack) (Nat.succ_le_succ hBefore.choices)

/-- The states between instructions are among those that occur. -/
theorem occurs_of_stateAfter {n : Nat} (h : p.stateAfter text n = some s)
    (hClears : p.Clears text limits n) : p.Occurs text limits n s := by
  cases n with
  | zero =>
    cases h
    exact .initial
  | succ n =>
    obtain ⟨s₀, hState, hRunning⟩ := stateAfter_succ_eq_some h
    have hLast : (p.moments text s₀).getLast? = some s :=
      moments_getLast? (by rw [hRunning]; rfl)
    exact .during hState hClears (List.mem_of_getLast? hLast)

/-- Entries that can be taken off one by one remember, the newest first, ever shorter parts of the
log. -/
theorem StackSound.logSizes {slots logSize : Nat} {entries : List Pending}
    (h : p.StackSound slots logSize entries) :
    (entries.filterMap Pending.logSize?).Pairwise (· > ·) ∧
      ∀ size ∈ entries.filterMap Pending.logSize?, size < logSize := by
  induction entries generalizing logSize with
  | nil => exact ⟨.nil, by simp⟩
  | cons entry rest ih =>
    -- An entry to be resumed remembers more than all below it, and less than the log holds.
    have resumes {size : Nat} (hSize : size < logSize) (hRest : p.StackSound slots size rest) :
        (size :: rest.filterMap Pending.logSize?).Pairwise (· > ·) ∧
          ∀ n ∈ size :: rest.filterMap Pending.logSize?, n < logSize := by
      obtain ⟨hOrdered, hBelow⟩ := ih hRest
      refine ⟨List.pairwise_cons.2 ⟨hBelow, hOrdered⟩, ?_⟩
      intro n hMem
      rcases List.mem_cons.1 hMem with rfl | hMem
      · exact hSize
      · exact Nat.lt_trans (hBelow n hMem) hSize
    cases entry with
    | restore slot counter => exact ih h.2
    | stop exit pos size => exact resumes h.1 h.2
    | branch pc branch pos size => exact resumes h.1 h.2.2

theorem Sound.logSizes (h : p.Sound s) :
    s.logSizes.Pairwise (· < ·) ∧ ∀ size ∈ s.logSizes, size < s.choices.size := by
  obtain ⟨hOrdered, hBelow⟩ := StackSound.logSizes h
  simp only [State.waiting, List.filterMap_reverse, List.pairwise_reverse, List.mem_reverse]
    at hOrdered hBelow
  exact ⟨hOrdered, hBelow⟩

/-- Neither the stack nor the choice log ever holds more than one entry for each instruction
executed, so a limit on these bounds both of them; and a limit on the depth is exceeded by one entry
at most.  This holds of every state that occurs in a search, within an instruction as well as before
it.  Before an instruction, the entries to be resumed remember ever longer parts of the log from the
bottom of the stack to its top, and none of them the whole log. -/
theorem memory_bounded (p : Program) (text : Array Char) (limits : Limits) :
    (∀ n s, p.Occurs text limits n s →
      s.stack.size ≤ n ∧ s.choices.size ≤ n ∧
      (∀ depth, limits.depth = some depth → s.stack.size ≤ depth + 1) ∧
      ∀ steps, limits.steps = some steps →
        n ≤ steps ∧ s.stack.size ≤ steps ∧ s.choices.size ≤ steps) ∧
    ∀ n s, p.stateAfter text n = some s →
      (p.Clears text limits n → p.Occurs text limits n s) ∧
      s.logSizes.Pairwise (· < ·) ∧ ∀ size ∈ s.logSizes, size < s.choices.size := by
  constructor
  · rintro n s (_ | @⟨n, s₀, _, hState, hClears, hMoment⟩)
    · simp [State.initial]
    · have hBefore := holds_of_stateAfter hState
      have hGrown := moments_grow (sound_of_stateAfter hState) s hMoment
      have hHolds := hGrown.mono (Nat.succ_le_succ hBefore.stack)
        (Nat.succ_le_succ hBefore.choices)
      have hMeets : ¬ limits.Exceeded (n + 1) s₀.stack.size :=
        Limits.check_eq_none_iff.1 (hClears n (Nat.lt_succ_self n) s₀ hState)
      refine ⟨hHolds.stack, hHolds.choices, ?_, ?_⟩
      · intro depth hDepth
        have hLow : s₀.stack.size ≤ depth :=
          Nat.le_of_not_lt fun h => hMeets (.inr ⟨depth, hDepth, h⟩)
        exact Nat.le_trans hGrown.stack (Nat.succ_le_succ hLow)
      · intro steps hSteps
        have hLow : n + 1 ≤ steps := Nat.le_of_not_lt fun h => hMeets (.inl ⟨steps, hSteps, h⟩)
        exact ⟨hLow, Nat.le_trans hHolds.stack hLow, Nat.le_trans hHolds.choices hLow⟩
  · intro n s hState
    exact ⟨occurs_of_stateAfter hState, (sound_of_stateAfter hState).logSizes⟩

/-- With at most seven instructions and at most four entries waiting, five entries do occur on the
stack for the pattern `(?:a*){2,3}` in `aab`. -/
theorem memory_bounded_doubledStar :
    ∃ s, (compile .doubledStar).Occurs #['a', 'a', 'b']
        ((Limits.unlimited.withSteps 7).withDepth (some 4)) 7 s ∧
      s.stack.size = 4 + 1 ∧ s.choices.size ≤ 7 := by
  have hSeventh : ((compile .doubledStar).stateAfter #['a', 'a', 'b'] 7).map
      (·.stack.size) = some 5 := by
    decide +kernel
  have hEarlier : ∀ n < 7, ((compile .doubledStar).stateAfter #['a', 'a', 'b'] n).all
      (·.stack.size ≤ 4) = true := by
    decide +kernel
  obtain ⟨s, hState, hSize⟩ := Option.map_eq_some_iff.1 hSeventh
  have hClears : (compile .doubledStar).Clears #['a', 'a', 'b']
      ((Limits.unlimited.withSteps 7).withDepth (some 4)) 7 := by
    intro i hi s' hState'
    have hAll := hEarlier i hi
    rw [hState', Option.all_some, decide_eq_true_eq] at hAll
    refine Limits.check_eq_none_iff.2 ?_
    rintro (⟨steps, hSteps, hLow⟩ | ⟨depth, hDepth, hLow⟩)
    · cases hSteps
      omega
    · cases hDepth
      omega
  obtain ⟨hOccurring, hBefore⟩ := memory_bounded (compile .doubledStar) #['a', 'a', 'b']
    ((Limits.unlimited.withSteps 7).withDepth (some 4))
  have hOccurs := (hBefore 7 s hState).1 hClears
  exact ⟨s, hOccurs, hSize, (hOccurring 7 s hOccurs).2.1⟩

end Program

end BacktrackRegex
