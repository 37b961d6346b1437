import BacktrackRegex.Proofs.Search.Priority

/-!
# Every search ends

The code of a loop leads back to its head, a failure leads back in the text, and a body may match
the empty string; still no search goes on forever.  What the start of a search becomes is a finite
list of threads at `accept`, and every instruction follows the first thread that is left by one
step, so the machine is through after as many instructions as the threads were followed for.

* `Program.Executes` — the instructions of a search, counted from one, and the states that they are
  executed in;
* `Program.Halts` — the instruction that is executed in a state ends the search;
* `halts_of_expands` — a machine whose threads become threads at `accept` comes to a halt;
* `Regex.search_terminates` — a search comes to a halt, for every regex in every text.
-/

set_option autoImplicit false

namespace BacktrackRegex

namespace Program

/-- Instruction number `i` of a search that nothing cuts off is executed in the state `s`. -/
inductive Executes (p : Program) (text : Array Char) : Nat → State → Prop
  | intro {n : Nat} {s : State} (h : p.stateAfter text n = some s) : p.Executes text (n + 1) s

/-- The instruction that is executed in the state ends the search: with a match, or by taking the
last entry off the stack without finding one that can be resumed. -/
inductive Halts (p : Program) (text : Array Char) (s : State) : Prop
  | matched (h : p.step text s = .matched s)
  | failed {s' : State} (h : p.step text s = .failed s') (hEmpty : s'.stack = #[])

variable {p : Program} {text : Array Char}

/-! ## Failure leaves nothing on the stack -/

theorem stack_eq_empty_of_nothing {s s' : State} (h : p.unwind s = .nothing s') :
    s'.stack = #[] := by
  unfold unwind at h
  split at h
  · rename_i hBack
    cases h
    simpa using hBack
  · dsimp only at h
    split at h
    · split at h <;> cases h
    · cases h
    · split at h
      · split at h <;> cases h
      · cases h

theorem backtrack_failed {s s' : State} (h : p.backtrack s = .failed s') : s'.stack = #[] := by
  fun_induction backtrack p s with
  | case1 s s₁ hUnwind ih => exact ih h
  | case2 => cases h
  | case3 s s₁ hUnwind =>
    cases h
    exact stack_eq_empty_of_nothing hUnwind
  | case4 => cases h

theorem loopHead_failed {slot exit : Nat} {q : Quantifier} {s s' : State}
    (h : p.loopHead slot q exit s = .failed s') : s'.stack = #[] := by
  unfold loopHead at h
  split at h
  · cases h
  · split at h
    · cases h
    · split at h
      · cases h
      · exact backtrack_failed h

theorem loopEnd_ne_failed {slot head : Nat} {s s' : State} :
    p.loopEnd slot head s ≠ .failed s' := by
  intro h
  unfold loopEnd at h
  split at h
  · split at h
    · cases h
    · split at h
      · cases h
      · split at h <;> cases h
  · cases h

/-- Only backtracking can find that no path is left, and it looks through the whole stack. -/
theorem step_failed {s s' : State} (h : p.step text s = .failed s') : s'.stack = #[] := by
  unfold step at h
  split at h
  case h_2 =>
    split at h
    · split at h
      · cases h
      · exact backtrack_failed h
    · exact backtrack_failed h
  case h_6 => exact loopHead_failed h
  case h_7 => exact absurd h loopEnd_ne_failed
  case h_3 => split at h <;> cases h
  case h_5 => split at h <;> cases h
  all_goals cases h

/-! ## The last instruction -/

/-- A search executes no instruction after one that ends it. -/
theorem Halts.le_of_executes {last i : Nat} {s s' : State} (hHalts : p.Halts text s)
    (hExecutes : p.Executes text last s) (hOther : p.Executes text i s') : i ≤ last := by
  obtain ⟨hState⟩ := hExecutes
  obtain ⟨hState'⟩ := hOther
  by_contra hlt
  obtain ⟨s₁, hNext⟩ :=
    stateAfter_of_le hState' (Nat.lt_of_succ_lt_succ (Nat.lt_of_not_le hlt))
  obtain ⟨s₀, hState₀, hRunning⟩ := stateAfter_succ_eq_some hNext
  rw [hState] at hState₀
  cases hState₀
  cases hHalts with
  | matched hStep =>
    rw [hStep] at hRunning
    cases hRunning
  | failed hStep _ =>
    rw [hStep] at hRunning
    cases hRunning

/-! ## Following threads to the end -/

/-- A state of the search whose threads become threads at `accept` is followed by one in which the
search halts.  The induction is on how the threads are followed: each of its steps for the first
thread is one instruction. -/
theorem halts_of_expands {ts us : List Thread} (h : p.Expands text ts us)
    (hAll : ∀ u ∈ us, p.Accepts u) {n : Nat} {s : State} (hState : p.stateAfter text n = some s)
    (hSound : p.Sound s) (hThreads : p.threads s = ts) :
    ∃ last s', p.Executes text last s' ∧ p.Halts text s' := by
  induction h generalizing n s with
  | nil => cases hThreads
  | keep _ _ =>
    obtain ⟨hFirst, -⟩ := List.cons_eq_cons.1 hThreads
    have hAccept : p.Accepts s.thread := hFirst ▸ hAll _ List.mem_cons_self
    exact ⟨n + 1, s, .intro hState, .matched (step_accept hAccept)⟩
  | follow hAccept hNext _ ih =>
    obtain ⟨hFirst, hWaiting⟩ := List.cons_eq_cons.1 hThreads
    have hStep := step_spec text hSound (hFirst ▸ hAccept)
    rw [hFirst, hNext, hWaiting] at hStep
    cases hProgress : p.step text s with
    | running s' =>
      rw [hProgress] at hStep
      exact ih hAll (stateAfter_succ hState hProgress) hStep.1 hStep.2
    | failed s' => exact ⟨n + 1, s, .intro hState, .failed hProgress (step_failed hProgress)⟩
    | matched s' =>
      rw [hProgress] at hStep
      exact hStep.elim
    | broken f =>
      rw [hProgress] at hStep
      exact hStep.elim

/-- The search for a regex comes to a state in which it halts. -/
theorem exists_halts (r : Regex) (hBranched : r.Branched) (text : Array Char) :
    ∃ last s, (compile r).Executes text last s ∧ (compile r).Halts text s := by
  obtain ⟨us, hExpands, hOutcomes⟩ := becomes_outcomes r hBranched text
  have hStart : (compile r).stateAfter text 0 = some (.initial r.slotCount) := rfl
  exact halts_of_expands hExpands (accepts_of_outcomes r hOutcomes) hStart (sound_initial _) rfl

end Program

/-- There is a last instruction of the search for a regex, neither limits nor the widths of counters
counting: the search executes it, ends by it, and executes none with a higher number. -/
theorem Regex.search_terminates (r : Regex) (hBranched : r.Branched) (text : Array Char) :
    ∃ last s, (Program.compile r).Executes text last s ∧ (Program.compile r).Halts text s ∧
      ∀ i s', (Program.compile r).Executes text i s' → i ≤ last := by
  obtain ⟨last, s, hExecutes, hHalts⟩ := Program.exists_halts r hBranched text
  exact ⟨last, s, hExecutes, hHalts, fun _ _ hOther => hHalts.le_of_executes hExecutes hOther⟩

/-- For `(?:a*){2,3}` in `aab` the machine is not in any state after 18 instructions. -/
theorem Program.stateAfter_doubledStar :
    (compile .doubledStar).stateAfter #['a', 'a', 'b'] 18 = none := by
  decide +kernel

/-- The last instruction of the search for `(?:a*){2,3}` in `aab` is the eighteenth one. -/
theorem Regex.search_terminates_doubledStar :
    doubledStar.Branched ∧
      ∃ s, (Program.compile doubledStar).Executes #['a', 'a', 'b'] 18 s ∧
        (Program.compile doubledStar).Halts #['a', 'a', 'b'] s ∧
        ∀ i s', (Program.compile doubledStar).Executes #['a', 'a', 'b'] i s' → i ≤ 18 := by
  obtain ⟨last, s, hExecutes, hHalts, hLast⟩ :=
    search_terminates doubledStar branched_doubledStar #['a', 'a', 'b']
  have hReached : ((Program.compile doubledStar).stateAfter #['a', 'a', 'b'] 17).isSome := by
    decide +kernel
  obtain ⟨s', hState⟩ := Option.isSome_iff_exists.1 hReached
  have hLow : 18 ≤ last := hLast 18 s' (.intro hState)
  have hHigh : last ≤ 18 := by
    obtain ⟨hLastState⟩ := hExecutes
    by_contra hMore
    obtain ⟨s₁, hBehind⟩ :=
      Program.stateAfter_of_le hLastState (Nat.le_of_lt_succ (Nat.lt_of_not_le hMore))
    rw [Program.stateAfter_doubledStar] at hBehind
    cases hBehind
  obtain rfl := Nat.le_antisymm hHigh hLow
  exact ⟨branched_doubledStar, s, hExecutes, hHalts, hLast⟩

end BacktrackRegex
