import BacktrackRegex.Proofs.Search.Memory

/-!
# Backtracking undoes everything else

The machine copies no state when it leaves something waiting.  Still, when an entry is resumed, the
machine is back in the state in which the entry was put on the stack: all counters, the choice log,
the rest of the stack and the place in the text.  The search differs from then only in the choice
that it takes now, and in what that choice leaves waiting.

* `Program.history` — all that a search goes through, `PushedAt` — when an entry on the stack was
  put there;
* `Program.Resumes` — how a search goes on from that moment when the entry is resumed;
* `Recalls` — counters and log, undone entry by entry, lead through the moments of the entries;
* `backtrack_undoes` — what backtracking comes to in any state of a search.
-/

set_option autoImplicit false

namespace BacktrackRegex

/-! ## The course of a search -/

/-- All that the first `n` instructions of a search go through, oldest first. -/
def Program.history (p : Program) (text : Array Char) : Nat → List State
  | 0 => []
  | n + 1 => p.history text n ++ (p.stateAfter text n).elim [] (p.moments text)

/-- The entry was put on the stack in the state `s₀`, and has been there ever since. -/
def PushedAt (history : List State) (entry : Pending) (s₀ : State) : Prop :=
  ∃ before after, history = before ++ s₀ :: s₀.push entry :: after ∧
    ∀ s ∈ after, s₀.stack.size < s.stack.size

/-- The entry leads back to the place in the text and to the choices of this state. -/
inductive Pending.LeadsBack (s₀ : State) : Pending → Prop
  | branch (pc branch : Nat) : LeadsBack s₀ (.branch pc branch s₀.pos s₀.choices.size)
  | stop (exit : Nat) : LeadsBack s₀ (.stop exit s₀.pos s₀.choices.size)

/-- The states in which a search goes on from the state `s₀` when it resumes the entry: one more
choice has been taken, and the next branch waits if there is one. -/
inductive Program.Resumes (p : Program) (s₀ : State) : Pending → State → Prop
  | stop (exit : Nat) :
    p.Resumes s₀ (.stop exit s₀.pos s₀.choices.size)
      { s₀ with pc := exit, choices := s₀.choices.push .stop }
  | branch {pc branch start : Nat} {starts : Array Nat} (hFork : p.code[pc]? = some (.fork starts))
    (hStart : starts[branch]? = some start) (hNext : branch + 1 < starts.size) :
    p.Resumes s₀ (.branch pc branch s₀.pos s₀.choices.size)
      { s₀ with
        pc := start
        choices := s₀.choices.push (.branch branch)
        stack := s₀.stack.push (.branch pc (branch + 1) s₀.pos s₀.choices.size) }
  | lastBranch {pc branch start : Nat} {starts : Array Nat}
    (hFork : p.code[pc]? = some (.fork starts)) (hStart : starts[branch]? = some start)
    (hLast : branch + 1 = starts.size) :
    p.Resumes s₀ (.branch pc branch s₀.pos s₀.choices.size)
      { s₀ with pc := start, choices := s₀.choices.push (.branch branch) }

/-- What backtracking comes to in the state `s`, after this course of a search: the newest entry
that can be resumed is resumed, from the one moment at which it was put on the stack; or there is
none, and all counters are as they were at the start. -/
inductive Program.Undone (p : Program) (history : List State) (slots : Nat) (s : State) :
    Progress → Prop
  | resumed {entry : Pending} {above : List Pending} {s₀ s' : State}
    (hStack : s.stack.toList = s₀.stack.toList ++ entry :: above)
    (hAbove : ∀ later ∈ above, later.logSize? = none)
    (hPushed : PushedAt history entry s₀)
    (hOnly : ∀ s₁, PushedAt history entry s₁ → s₁.stack.size = s₀.stack.size → s₁ = s₀)
    (hResumes : p.Resumes s₀ entry s') : p.Undone history slots s (.running s')
  | nothing {s' : State} (hAll : ∀ entry ∈ s.stack, entry.logSize? = none)
    (hStack : s'.stack = #[]) (hCounters : s'.counters = Array.replicate slots {}) :
    p.Undone history slots s (.failed s')

variable {p : Program} {text : Array Char} {s s' s₀ : State} {history more : List State}
  {entry : Pending} {slots : Nat}

theorem Program.history_succ {n : Nat} (h : p.stateAfter text n = some s) :
    p.history text (n + 1) = p.history text n ++ p.moments text s := by
  rw [history, h, Option.elim_some]

/-! ## The moment of an entry -/

theorem PushedAt.append (h : PushedAt history entry s₀)
    (hMore : ∀ s ∈ more, s₀.stack.size < s.stack.size) : PushedAt (history ++ more) entry s₀ := by
  obtain ⟨before, after, rfl, hAfter⟩ := h
  refine ⟨before, after ++ more, by simp, ?_⟩
  intro s hs
  rcases List.mem_append.1 hs with hs | hs
  · exact hAfter s hs
  · exact hMore s hs

/-- Once the stack stays above the height of a state, no later state has that height. -/
theorem eq_of_higher {s₁ : State} {later between rest : List State}
    (hHigher : ∀ s ∈ later, s₀.stack.size < s.stack.size)
    (hSplit : s₀ :: later = between ++ s₁ :: rest) (hSize : s₁.stack.size = s₀.stack.size) :
    s₁ = s₀ := by
  cases between with
  | nil => exact (List.cons.inj hSplit).1.symm
  | cons s between =>
    obtain ⟨-, rfl⟩ := List.cons.inj hSplit
    have := hHigher s₁ (List.mem_append_right _ List.mem_cons_self)
    omega

/-- An entry has been at its height on the stack from one moment on. -/
theorem PushedAt.unique {s₁ : State} (h : PushedAt history entry s₀)
    (h' : PushedAt history entry s₁) (hSize : s₁.stack.size = s₀.stack.size) : s₁ = s₀ := by
  obtain ⟨before, after, rfl, hAfter⟩ := h
  obtain ⟨before', after', hSplit, hAfter'⟩ := h'
  have hHigher : ∀ s ∈ s₀.push entry :: after, s₀.stack.size < s.stack.size :=
    List.forall_mem_cons.2 ⟨by simp [State.push], hAfter⟩
  have hHigher' : ∀ s ∈ s₁.push entry :: after', s₁.stack.size < s.stack.size :=
    List.forall_mem_cons.2 ⟨by simp [State.push], hAfter'⟩
  -- One of the two moments is not after the other.
  rcases List.append_eq_append_iff.1 hSplit with ⟨between, -, hRest⟩ | ⟨between, -, hRest⟩
  · exact eq_of_higher hHigher hRest hSize
  · exact (eq_of_higher hHigher' hRest hSize.symm).symm

/-! ## What undoing leads to -/

/-- Entries, newest first, that are undone from these choices and counters on: undone down to an
entry that can be resumed, they are those of the state in which it was put on the stack, and in the
end the counters are the initial ones. -/
inductive Recalls (history : List State) (slots : Nat) :
    List Choice → Array Counter → List Pending → Prop
  | nil {choices : List Choice} {counters : Array Counter}
    (hCounters : counters = Array.replicate slots {}) : Recalls history slots choices counters []
  | restore {choices : List Choice} {counters : Array Counter} {slot : Nat} {counter : Counter}
    {rest : List Pending}
    (h : Recalls history slots choices (counters.setIfInBounds slot counter) rest) :
    Recalls history slots choices counters (.restore slot counter :: rest)
  | resume {choices : List Choice} {counters : Array Counter} {entry : Pending}
    {rest : List Pending} {s₀ : State} (hPushed : PushedAt history entry s₀)
    (hBack : entry.LeadsBack s₀) (hChoices : s₀.choices.toList = choices.take s₀.choices.size)
    (hCounters : s₀.counters = counters) (hWaiting : s₀.waiting = rest)
    (h : Recalls history slots s₀.choices.toList counters rest) :
    Recalls history slots choices counters (entry :: rest)

/-- After this course of a search, all that waits in the state recalls when it was put there. -/
def State.Recalled (s : State) (history : List State) (slots : Nat) : Prop :=
  Recalls history slots s.choices.toList s.counters s.waiting

/-- The search goes on without going below the entries. -/
theorem Recalls.append {choices : List Choice} {counters : Array Counter} {entries : List Pending}
    (h : Recalls history slots choices counters entries)
    (hMore : ∀ s ∈ more, entries.length ≤ s.stack.size) :
    Recalls (history ++ more) slots choices counters entries := by
  induction h with
  | nil hCounters => exact .nil hCounters
  | restore _ ih => exact .restore (ih fun s hs => Nat.le_of_succ_le (hMore s hs))
  | @resume choices counters entry rest s₀ hPushed hBack hChoices hCounters hWaiting _ ih =>
    have hLength : rest.length = s₀.stack.size := by simp [← hWaiting, State.waiting]
    refine .resume (hPushed.append fun s hs => ?_) hBack hChoices hCounters hWaiting
      (ih fun s hs => Nat.le_of_succ_le (hMore s hs))
    rw [← hLength]
    exact hMore s hs

/-- Only the part of the log that the newest entry recalls matters. -/
theorem Recalls.congr {choices choices' : List Choice} {counters : Array Counter}
    {entries : List Pending} (h : Recalls history slots choices counters entries)
    (hPrefix : choices <+: choices') : Recalls history slots choices' counters entries := by
  induction h with
  | nil hCounters => exact .nil hCounters
  | restore _ ih => exact .restore (ih hPrefix)
  | @resume choices counters entry rest s₀ hPushed hBack hChoices hCounters hWaiting h _ =>
    refine .resume hPushed hBack ?_ hCounters hWaiting h
    obtain ⟨later, rfl⟩ := hPrefix
    have hLength : s₀.choices.size ≤ choices.length := by
      have := congrArg List.length hChoices
      simp only [List.length_take, Array.length_toList] at this
      omega
    rw [List.take_append_of_le_length hLength, hChoices]

namespace State.Recalled

theorem append (h : s.Recalled history slots) (hMore : ∀ m ∈ more, s.stack.size ≤ m.stack.size) :
    s.Recalled (history ++ more) slots := by
  refine Recalls.append h fun m hm => ?_
  simpa [waiting] using hMore m hm

theorem goto (h : s.Recalled history slots) (pc : Nat) : (s.goto pc).Recalled history slots := h

theorem choose (h : s.Recalled history slots) (choice : Choice) :
    (s.choose choice).Recalled history slots :=
  Recalls.congr h ⟨[choice], by simp [State.choose]⟩

/-- A counter can change, since its old value is put on the stack. -/
theorem recount {slot : Nat} {old : Counter} (h : s.Recalled history slots)
    (hOld : s.counters[slot]? = some old) (counter : Counter) :
    (s.recount slot old counter).Recalled history slots := by
  obtain ⟨hSlot, rfl⟩ := Array.getElem?_eq_some_iff.1 hOld
  have hWaiting : (s.recount slot s.counters[slot] counter).waiting =
      .restore slot s.counters[slot] :: s.waiting := waiting_push s _
  rw [Recalled, hWaiting]
  refine .restore ?_
  have hSame : (s.counters.setIfInBounds slot counter).setIfInBounds slot s.counters[slot] =
      s.counters := by
    rw [Array.setIfInBounds_setIfInBounds]
    simp [Array.setIfInBounds, hSlot]
  show Recalls history slots s.choices.toList
    ((s.counters.setIfInBounds slot counter).setIfInBounds slot s.counters[slot]) s.waiting
  rwa [hSame]

/-- What is put on the stack recalls this moment, as long as it stays there. -/
theorem push (h : s.Recalled history slots) (hBack : entry.LeadsBack s)
    (hMore : ∀ m ∈ more, s.stack.size < m.stack.size) :
    (s.push entry).Recalled (history ++ s :: s.push entry :: more) slots := by
  have hRest : s.Recalled (history ++ s :: s.push entry :: more) slots := by
    refine h.append ?_
    rintro m (_ | ⟨_, _ | ⟨_, hm⟩⟩)
    · exact Nat.le_refl _
    · simp [State.push]
    · exact Nat.le_of_lt (hMore m hm)
  rw [Recalled, waiting_push]
  refine .resume ⟨history, more, rfl, hMore⟩ hBack ?_ rfl rfl hRest
  rw [choices_push, ← Array.length_toList, List.take_length]

end State.Recalled

namespace Program

/-! ## Every instruction leaves what can be recalled -/

theorem enterBranch_recalled {pc branch : Nat} {starts : Array Nat}
    (h : s.Recalled history slots) (hEnter : enterBranch pc starts branch s = .ok s') :
    s'.Recalled (history ++ s :: s.branchMoments pc starts branch) slots := by
  unfold enterBranch at hEnter
  split at hEnter
  · cases hEnter
  · rename_i start hStart
    cases hEnter
    by_cases hNext : branch + 1 < starts.size
    · simp only [State.branchMoments, if_pos hNext]
      refine ((h.push (.branch pc (branch + 1)) ?_).choose _).goto _
      simp [State.push, State.choose, State.goto]
    · simp only [State.branchMoments, if_neg hNext]
      refine ((h.append ?_).choose _).goto _
      simp [State.choose, State.goto]

/-- An entry that is resumed is a stop or a branch of an alternation. -/
theorem unwind_resumed_cases (h : p.unwind s = .resumed s') :
    (∃ exit pos logSize, s.stack.back? = some (.stop exit pos logSize) ∧
      s' = ((s.pop.truncate pos logSize).choose .stop).goto exit) ∨
    ∃ pc branch pos logSize starts, s.stack.back? = some (.branch pc branch pos logSize) ∧
      p.code[pc]? = some (.fork starts) ∧
      enterBranch pc starts branch (s.pop.truncate pos logSize) = .ok s' := by
  unfold unwind at h
  cases hBack : s.stack.back? with
  | none => simp [hBack] at h
  | some entry =>
    simp only [hBack] at h
    cases entry with
    | restore slot counter =>
      dsimp only at h
      split at h <;> cases h
    | stop exit pos logSize =>
      cases h
      exact .inl ⟨exit, pos, logSize, rfl, rfl⟩
    | branch pc branch pos logSize =>
      dsimp only at h
      split at h
      · rename_i starts hFork
        split at h
        · rename_i s₁ hEnter
          cases h
          exact .inr ⟨pc, branch, pos, logSize, starts, rfl, hFork, hEnter⟩
        · cases h
      · cases h

/-- A counter that is given back is the one that its entry recalls. -/
theorem restored_recalled (h : s.Recalled history slots) (hUnwind : p.unwind s = .restored s') :
    s'.Recalled history slots := by
  obtain ⟨slot, counter, hBack, rfl⟩ := unwind_restored_eq hUnwind
  rw [State.Recalled, State.waiting_of_back? hBack] at h
  cases h with
  | restore h => exact h
  | resume _ hLeads _ _ _ _ => cases hLeads

/-- Below an entry that can be resumed everything is as it was in the state in which it was put on
the stack, once the log is cut off. -/
theorem exists_moment (h : s.Recalled history slots) (hBack : s.stack.back? = some entry)
    (hEntry : entry.logSize? ≠ none) :
    ∃ s₀, PushedAt history entry s₀ ∧ entry.LeadsBack s₀ ∧ s.pop.stack = s₀.stack ∧
      s.pop.truncate s₀.pos s₀.choices.size = s₀.goto s.pc ∧ s₀.Recalled history slots := by
  rw [State.Recalled, State.waiting_of_back? hBack] at h
  cases h with
  | restore _ => exact absurd rfl hEntry
  | @resume _ _ _ _ s₀ hPushed hLeads hChoices hCounters hWaiting h =>
    have hStack : s.pop.stack = s₀.stack := by
      rw [← Array.toList_inj, ← List.reverse_inj]
      exact hWaiting.symm
    have hLog : s.choices.shrink s₀.choices.size = s₀.choices := by
      rw [← Array.toList_inj, hChoices]
      simp
    refine ⟨s₀, hPushed, hLeads, hStack, ?_, ?_⟩
    · simp only [State.truncate, State.goto, hStack, hCounters]
      simp only [State.pop, hLog]
    · rwa [State.Recalled, hCounters, hWaiting]

theorem unwindMoments_recalled (h : s.Recalled history slots)
    (hUnwind : p.unwind s = .resumed s') :
    s'.Recalled (history ++ p.unwindMoments s) slots := by
  unfold unwindMoments
  rcases unwind_resumed_cases hUnwind with
    ⟨exit, pos, logSize, hBack, rfl⟩ | ⟨pc, branch, pos, logSize, starts, hBack, hFork, hEnter⟩
  · obtain ⟨s₀, -, ⟨⟩, hStack, hMoment, hRecalled⟩ := exists_moment h hBack (Option.some_ne_none _)
    have hSize := State.size_pop hBack
    rw [hStack] at hSize
    simp only [hBack]
    rw [hMoment]
    refine (((hRecalled.goto s.pc).append ?_).choose _).goto _
    simp [State.goto, State.choose, hStack, ← hSize]
  · obtain ⟨s₀, -, ⟨⟩, hStack, hMoment, hRecalled⟩ := exists_moment h hBack (Option.some_ne_none _)
    have hSize := State.size_pop hBack
    rw [hStack] at hSize
    have hPopped : (s₀.goto s.pc).Recalled (history ++ [s, s.pop]) slots := by
      refine (hRecalled.goto s.pc).append ?_
      simp [State.goto, hStack, ← hSize]
    rw [hMoment] at hEnter
    have hEntered := enterBranch_recalled hPopped hEnter
    rw [List.append_assoc] at hEntered
    simpa only [hBack, hFork, hMoment, List.cons_append, List.nil_append] using hEntered

theorem backtrackMoments_of_restored (h : p.unwind s = .restored s') :
    p.backtrackMoments s = p.unwindMoments s ++ p.backtrackMoments s' := by
  rw [backtrackMoments]
  split <;> simp_all

theorem backtrackMoments_of_resumed (h : p.unwind s = .resumed s') :
    p.backtrackMoments s = p.unwindMoments s := by
  rw [backtrackMoments]
  split <;> simp_all

/-- What is given back or resumed on the way keeps the entries below. -/
theorem backtrackMoments_recalled (h : s.Recalled history slots)
    (hRunning : p.backtrack s = .running s') :
    s'.Recalled (history ++ p.backtrackMoments s) slots := by
  fun_induction backtrack p s generalizing history with
  | case1 s s₁ hUnwind ih =>
    have hRestored := restored_recalled h hUnwind
    rw [backtrackMoments_of_restored hUnwind, ← List.append_assoc]
    refine ih (hRestored.append ?_) hRunning
    obtain ⟨slot, counter, hBack, rfl⟩ := unwind_restored_eq hUnwind
    simp [unwindMoments, hBack, ← State.size_pop hBack]
  | case2 s s₁ hUnwind =>
    cases hRunning
    rw [backtrackMoments_of_resumed hUnwind]
    exact unwindMoments_recalled h hUnwind
  | case3 => cases hRunning
  | case4 => cases hRunning

theorem headMoments_recalled {slot exit : Nat} {q : Quantifier} (h : s.Recalled history slots)
    (hRunning : p.loopHead slot q exit s = .running s') :
    s'.Recalled (history ++ p.headMoments slot q exit s) slots := by
  unfold loopHead at hRunning
  unfold headMoments
  cases hCounter : s.counters[slot]? with
  | none => simp [hCounter] at hRunning
  | some counter =>
    simp only [hCounter] at hRunning ⊢
    by_cases hMore : q.allowsMore counter.count <;> by_cases hStop : q.allowsStop counter.count
    · simp only [if_pos hMore, if_pos hStop] at hRunning ⊢
      cases hRunning
      refine ((h.push (.stop exit) ?_).choose _).goto _
      simp [State.push, State.choose, State.goto]
    · simp only [if_pos hMore, if_neg hStop] at hRunning ⊢
      cases hRunning
      refine ((h.append ?_).choose _).goto _
      simp [State.choose, State.goto]
    · simp only [if_neg hMore, if_pos hStop] at hRunning ⊢
      cases hRunning
      refine ((h.append ?_).choose _).goto _
      simp [State.choose, State.goto]
    · simp only [if_neg hMore, if_neg hStop] at hRunning ⊢
      exact backtrackMoments_recalled h hRunning

theorem endMoments_recalled {slot head : Nat} (h : s.Recalled history slots)
    (hRunning : p.loopEnd slot head s = .running s') :
    s'.Recalled (history ++ p.endMoments slot head s) slots := by
  unfold loopEnd at hRunning
  unfold endMoments
  split at hRunning
  · rename_i q exit hHead
    cases hCounter : s.counters[slot]? with
    | none => simp [hCounter] at hRunning
    | some counter =>
      simp only [hHead, hCounter, State.setCounter?] at hRunning ⊢
      split at hRunning
      · rename_i hEmpty
        cases hRunning
        rw [if_pos hEmpty]
        refine (((h.append ?_).recount hCounter _).choose _).goto _
        simp [State.push, State.recount, State.choose, State.goto]
      · rename_i hEmpty
        cases hRunning
        rw [if_neg hEmpty]
        refine ((h.append ?_).recount hCounter _).goto _
        simp [State.push, State.recount, State.goto]
  · cases hRunning

/-- After every instruction, all that waits recalls when it was put there. -/
theorem step_recalled (h : s.Recalled history slots) (hRunning : p.step text s = .running s') :
    s'.Recalled (history ++ p.moments text s) slots := by
  unfold step at hRunning
  unfold moments
  cases hCode : p.code[s.pc]? with
  | none => simp [hCode] at hRunning
  | some instruction =>
    simp only [hCode] at hRunning
    cases instruction with
    | char set =>
      dsimp only at hRunning ⊢
      cases hChar : text[s.pos]? with
      | none =>
        rw [hChar] at hRunning
        exact backtrackMoments_recalled h hRunning
      | some c =>
        simp only [hChar] at hRunning ⊢
        split
        · rename_i hAccepts
          rw [if_pos hAccepts] at hRunning
          cases hRunning
          exact h.append (by simp)
        · rename_i hAccepts
          rw [if_neg hAccepts] at hRunning
          exact backtrackMoments_recalled h hRunning
    | fork starts =>
      dsimp only at hRunning ⊢
      split at hRunning
      · rename_i hEnter
        cases hRunning
        exact enterBranch_recalled h hEnter
      · cases hRunning
    | jump target =>
      cases hRunning
      exact (h.append (by simp [State.goto])).goto target
    | loopStart slot =>
      simp only [State.setCounter?] at hRunning
      cases hCounter : s.counters[slot]? with
      | none => simp [hCounter] at hRunning
      | some old =>
        simp only [hCounter] at hRunning ⊢
        cases hRunning
        refine ((h.append ?_).recount hCounter _).goto _
        simp [State.push, State.recount, State.goto]
    | loopHead slot q exit => exact headMoments_recalled h hRunning
    | loopEnd slot head => exact endMoments_recalled h hRunning
    | accept => cases hRunning

theorem recalled_of_stateAfter {n : Nat} (h : p.stateAfter text n = some s) :
    s.Recalled (p.history text n) p.slots := by
  induction n generalizing s with
  | zero =>
    cases h
    exact .nil rfl
  | succ n ih =>
    obtain ⟨s₀, hState, hRunning⟩ := stateAfter_succ_eq_some h
    rw [history_succ hState]
    exact step_recalled (ih hState) hRunning

/-! ## What backtracking comes to -/

/-- Resuming an entry continues its moment. -/
theorem resumes_of_unwind (hBack : s.stack.back? = some entry)
    (hLeads : entry.LeadsBack s₀)
    (hMoment : s.pop.truncate s₀.pos s₀.choices.size = s₀.goto s.pc)
    (hUnwind : p.unwind s = .resumed s') : p.Resumes s₀ entry s' := by
  rcases unwind_resumed_cases hUnwind with
    ⟨exit, pos, logSize, hStop, rfl⟩ | ⟨pc, branch, pos, logSize, starts, hBranch, hFork, hEnter⟩
  · rw [hStop] at hBack
    cases hBack
    cases hLeads
    rw [hMoment]
    exact .stop exit
  · rw [hBranch] at hBack
    cases hBack
    cases hLeads
    rw [hMoment] at hEnter
    unfold enterBranch at hEnter
    split at hEnter
    · cases hEnter
    · rename_i start hStart
      cases hEnter
      by_cases hNext : branch + 1 < starts.size
      · simp only [if_pos hNext]
        exact .branch hFork hStart hNext
      · simp only [if_neg hNext]
        have hSize := (Array.getElem?_eq_some_iff.1 hStart).1
        exact .lastBranch hFork hStart (by omega)

theorem toList_of_back? (h : s.stack.back? = some entry) :
    s.stack.toList = s.pop.stack.toList ++ [entry] := by
  rw [← List.reverse_inj, List.reverse_append]
  exact State.waiting_of_back? h

/-- Entries that give counters back are undone on the way to the entry that is resumed. -/
theorem Undone.of_restored {progress : Progress} (hUnwind : p.unwind s = .restored s₀)
    (h : p.Undone history slots s₀ progress) : p.Undone history slots s progress := by
  obtain ⟨slot, counter, hBack, rfl⟩ := unwind_restored_eq hUnwind
  have hList := toList_of_back? hBack
  cases h with
  | @resumed entry above s₀ s' hStack hAbove hPushed hOnly hResumes =>
    have hBelow : s.pop.stack.toList = s₀.stack.toList ++ entry :: above := hStack
    rw [hBelow, List.append_assoc] at hList
    refine .resumed hList ?_ hPushed hOnly hResumes
    intro later hLater
    rcases List.mem_append.1 hLater with hLater | hLater
    · exact hAbove later hLater
    · rw [List.mem_singleton.1 hLater]
      rfl
  | nothing hAll hStack hCounters =>
    refine .nothing (fun entry hEntry => ?_) hStack hCounters
    rw [← Array.mem_toList_iff, hList] at hEntry
    rcases List.mem_append.1 hEntry with hEntry | hEntry
    · exact hAll entry (Array.mem_toList_iff.1 hEntry)
    · rw [List.mem_singleton.1 hEntry]
      rfl

theorem Undone.of_resumed (h : s.Recalled history slots) (hUnwind : p.unwind s = .resumed s') :
    p.Undone history slots s (.running s') := by
  obtain ⟨entry, hBack, hEntry⟩ : ∃ entry, s.stack.back? = some entry ∧ entry.logSize? ≠ none := by
    rcases unwind_resumed_cases hUnwind with ⟨_, _, _, hBack, -⟩ | ⟨_, _, _, _, _, hBack, -⟩
    · exact ⟨_, hBack, Option.some_ne_none _⟩
    · exact ⟨_, hBack, Option.some_ne_none _⟩
  obtain ⟨s₀, hPushed, hLeads, hStack, hMoment, -⟩ := exists_moment h hBack hEntry
  have hList := toList_of_back? hBack
  rw [hStack] at hList
  exact .resumed hList (by simp) hPushed (fun s₁ h₁ hSize => hPushed.unique h₁ hSize)
    (resumes_of_unwind hBack hLeads hMoment hUnwind)

theorem eq_of_nothing (h : p.unwind s = .nothing s') : s' = s := by
  unfold unwind at h
  split at h
  · cases h
    rfl
  · dsimp only at h
    split at h
    · split at h <;> cases h
    · cases h
    · split at h
      · split at h <;> cases h
      · cases h

/-- With nothing left to undo, the counters are the initial ones. -/
theorem Undone.of_nothing (h : s.Recalled history slots) (hUnwind : p.unwind s = .nothing s') :
    p.Undone history slots s (.failed s') := by
  have hEmpty := stack_eq_empty_of_nothing hUnwind
  obtain rfl := eq_of_nothing hUnwind
  refine .nothing (by simp [hEmpty]) hEmpty ?_
  have hWaiting : s'.waiting = [] := by simp [State.waiting, hEmpty]
  rw [State.Recalled, hWaiting] at h
  cases h with
  | nil hCounters => exact hCounters

theorem backtrack_undone (h : s.Recalled history slots)
    (hUnbroken : ∀ f, p.backtrack s ≠ .broken f) : p.Undone history slots s (p.backtrack s) := by
  fun_induction backtrack p s with
  | case1 s s₁ hUnwind ih =>
    exact (ih (restored_recalled h hUnwind) hUnbroken).of_restored hUnwind
  | case2 s s₁ hUnwind => exact .of_resumed h hUnwind
  | case3 s s₁ hUnwind => exact .of_nothing h hUnwind
  | case4 s f hUnwind => exact absurd rfl (hUnbroken f)

/-- Only backtracking ends a search without a match. -/
theorem backtrack_of_step_failed (h : p.step text s = .failed s') : p.backtrack s = .failed s' := by
  unfold step at h
  split at h
  case h_2 =>
    split at h
    · split at h
      · cases h
      · exact h
    · exact h
  case h_6 =>
    unfold loopHead at h
    split at h
    · cases h
    · split at h
      · cases h
      · split at h
        · cases h
        · exact h
  case h_7 => exact absurd h loopEnd_ne_failed
  case h_3 => split at h <;> cases h
  case h_5 => split at h <;> cases h
  all_goals cases h

/-- In every state of a search, backtracking resumes the newest entry that can be resumed as if
nothing had happened since it was put on the stack: the counters, the log, the entries below and the
place in the text are those of that moment, and only the choice that is taken now is new, with the
next branch if one is left.  A search that ends without a match leaves an empty stack and the
counters that it started with. -/
theorem backtrack_undoes (p : Program) (text : Array Char) :
    (∀ n s, p.stateAfter text n = some s →
      p.Undone (p.history text n) p.slots s (p.backtrack s)) ∧
    ∀ limits s, p.search text limits = .failed s →
      s.stack = #[] ∧ s.counters = Array.replicate p.slots {} := by
  have hStates : ∀ n s, p.stateAfter text n = some s →
      p.Undone (p.history text n) p.slots s (p.backtrack s) := by
    intro n s hState
    refine backtrack_undone (recalled_of_stateAfter hState) fun f hBroken => ?_
    have hLeads := backtrack_spec (sound_of_stateAfter hState)
    rw [hBroken] at hLeads
    exact hLeads
  refine ⟨hStates, fun limits s hSearch => ?_⟩
  obtain ⟨n, s₀, hState, -, hEnds⟩ := search_endsAt p text limits
  rw [hSearch] at hEnds
  cases hEnds with
  | failed _ hStep =>
    have hUndone := hStates n s₀ hState
    rw [backtrack_of_step_failed hStep] at hUndone
    cases hUndone with
    | nothing _ hStack hCounters => exact ⟨hStack, hCounters⟩

end Program

/-- The pattern `a*a`.  In `aa` the star takes both letters first and has to give one back. -/
def Regex.starThenOnce : Regex :=
  .seq [(.leaf (.only 'a'), .zeroOrMore), (.leaf (.only 'a'), .once)]

/-- When the search for `a*a` in `aa` finds no letter left, the counters of both loops have changed
since the stop that is resumed was put on the stack.  In `b` the search fails. -/
theorem Program.backtrack_undoes_starThenOnce :
    (∃ s s' entry s₀, (compile .starThenOnce).stateAfter #['a', 'a'] 11 = some s ∧
      s.counters = #[⟨2, 2⟩, ⟨0, 2⟩] ∧ (compile .starThenOnce).backtrack s = .running s' ∧
      PushedAt ((compile .starThenOnce).history #['a', 'a'] 11) entry s₀ ∧
      (compile .starThenOnce).Resumes s₀ entry s' ∧ s'.counters = #[⟨1, 1⟩, ⟨0, 0⟩]) ∧
    ∃ s, (compile .starThenOnce).search #['b'] .unlimited = .failed s ∧ s.stack = #[] ∧
      s.counters = #[{}, {}] := by
  constructor
  · have hComputed : ((compile .starThenOnce).stateAfter #['a', 'a'] 11).map
        (fun s => (s.counters, (compile .starThenOnce).backtrack s)) =
        some (#[⟨2, 2⟩, ⟨0, 2⟩], .running ⟨4, 1, #[.iterate, .stop],
          #[.restore 0 ⟨0, 0⟩, .stop 4 0 0, .restore 0 ⟨0, 0⟩], #[⟨1, 1⟩, ⟨0, 0⟩]⟩) := by
      decide +kernel
    obtain ⟨s, hState, hFields⟩ := Option.map_eq_some_iff.1 hComputed
    obtain ⟨hCounters, hBacktrack⟩ := Prod.mk.inj hFields
    have hUndone := (backtrack_undoes _ _).1 11 s hState
    rw [hBacktrack] at hUndone
    cases hUndone with
    | @resumed entry _ s₀ _ _ _ hPushed _ hResumes =>
      exact ⟨s, _, entry, s₀, hState, hCounters, hBacktrack, hPushed, hResumes, rfl⟩
  · have hFailed : (compile .starThenOnce).search #['b'] .unlimited =
        .failed ⟨6, 0, #[.stop, .iterate], #[], #[{}, {}]⟩ := by
      decide +kernel
    obtain ⟨hStack, hCounters⟩ := (backtrack_undoes _ _).2 .unlimited _ hFailed
    exact ⟨_, hFailed, hStack, hCounters⟩

end BacktrackRegex
