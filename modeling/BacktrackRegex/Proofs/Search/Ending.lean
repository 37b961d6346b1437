import BacktrackRegex.Search.Run

/-!
# How a search ends

The states that the machine goes through do not depend on limits or on the width of counters; those
only decide at which of the states the search is cut off.

* `Program.stateAfter` — the state after so many instructions, as long as the search goes on;
* `Program.Clears` — no limit stands in the way of the first instructions;
* `Program.Overflows` — the search would take a counter out of its word;
* `search_endsAt` — a search ends at one of the states, for one of the reasons in `Program.EndsAt`;
* `search_exhausted` — an exhausted search stands before the limit that it reports.
-/

set_option autoImplicit false

namespace BacktrackRegex

namespace Program

/-- The state after `n` instructions, none if the search is over by then. -/
def stateAfter (p : Program) (text : Array Char) : Nat → Option State
  | 0 => some (.initial p.slots)
  | n + 1 =>
    match p.stateAfter text n with
    | none => none
    | some s =>
      match p.step text s with
      | .running s' => some s'
      | _ => none

/-- No limit stands in the way of the first `n` instructions. -/
def Clears (p : Program) (text : Array Char) (limits : Limits) (n : Nat) : Prop :=
  ∀ i < n, ∀ s, p.stateAfter text i = some s → limits.check (i + 1) s.stack.size = none

/-- Before any limit is met, the search needs a number that its word cannot hold: the number of a
step, or the count of an iteration. -/
inductive Overflows (p : Program) (text : Array Char) (limits : Limits) : Fault → Prop
  | steps {n : Nat} {s : State} (hState : p.stateAfter text n = some s)
    (hClears : p.Clears text limits n) (hFull : stepCapacity ≤ n + 1) :
    p.Overflows text limits .stepOverflow
  | counts {n : Nat} {s : State} (hState : p.stateAfter text n = some s)
    (hClears : p.Clears text limits n) (hFull : p.countOverflows s = true) :
    p.Overflows text limits .counterOverflow

/-- What the search comes to in a state before which `steps` instructions were executed, if it does
not go on from there. -/
inductive EndsAt (p : Program) (text : Array Char) (limits : Limits) (steps : Nat) (s : State) :
    Ending → Prop
  | stepOverflow (h : stepCapacity ≤ steps + 1) :
    p.EndsAt text limits steps s (.broken .stepOverflow)
  | exhausted {e : Exhaustion} (hSteps : steps + 1 < stepCapacity)
    (h : limits.check (steps + 1) s.stack.size = some e) :
    p.EndsAt text limits steps s (.exhausted e)
  | counterOverflow (hCheck : limits.check (steps + 1) s.stack.size = none)
    (h : p.countOverflows s = true) :
    p.EndsAt text limits steps s (.broken .counterOverflow)
  | matched {s' : State} (hSteps : steps + 1 < stepCapacity)
    (hCheck : limits.check (steps + 1) s.stack.size = none)
    (h : p.step text s = .matched s') : p.EndsAt text limits steps s (.matched s')
  | failed {s' : State} (hCheck : limits.check (steps + 1) s.stack.size = none)
    (h : p.step text s = .failed s') : p.EndsAt text limits steps s (.failed s')
  | broken {f : Fault} (hCheck : limits.check (steps + 1) s.stack.size = none)
    (h : p.step text s = .broken f) : p.EndsAt text limits steps s (.broken f)

variable {p : Program} {text : Array Char} {limits : Limits}

theorem stateAfter_succ {n : Nat} {s s' : State} (h : p.stateAfter text n = some s)
    (hStep : p.step text s = .running s') : p.stateAfter text (n + 1) = some s' := by
  simp [stateAfter, h, hStep]

theorem stateAfter_succ_eq_some {n : Nat} {s' : State}
    (h : p.stateAfter text (n + 1) = some s') :
    ∃ s, p.stateAfter text n = some s ∧ p.step text s = .running s' := by
  rw [stateAfter] at h
  split at h
  · cases h
  · rename_i s hState
    split at h
    · rename_i s'' hStep
      cases h
      exact ⟨s, hState, hStep⟩
    · cases h

/-- The search has gone through all states up to the one it is in. -/
theorem stateAfter_of_le {m n : Nat} {s : State} (h : p.stateAfter text n = some s) (hle : m ≤ n) :
    ∃ s', p.stateAfter text m = some s' := by
  induction n generalizing s with
  | zero =>
    obtain rfl := Nat.le_zero.1 hle
    exact ⟨s, h⟩
  | succ n ih =>
    rcases Nat.le_succ_iff.1 hle with hBefore | rfl
    · obtain ⟨s', hState, -⟩ := stateAfter_succ_eq_some h
      exact ih hState hBefore
    · exact ⟨s, h⟩

/-- What holds at the start, and is passed on by every step to the next number, holds in every
state of the search. -/
theorem stateAfter_rec {P : Nat → State → Prop} (hInitial : P 0 (.initial p.slots))
    (hStep : ∀ n s s', P n s → p.step text s = .running s' → P (n + 1) s') :
    ∀ {n s}, p.stateAfter text n = some s → P n s := by
  intro n
  induction n with
  | zero =>
    intro s h
    cases h
    exact hInitial
  | succ n ih =>
    intro s' h
    obtain ⟨s, hState, hRunning⟩ := stateAfter_succ_eq_some h
    exact hStep n s s' (ih hState) hRunning

/-- What holds at the start and is kept by every step holds in every state of the search. -/
theorem stateAfter_induction {P : State → Prop} (hInitial : P (.initial p.slots))
    (hStep : ∀ s s', P s → p.step text s = .running s' → P s') {n : Nat} {s : State}
    (h : p.stateAfter text n = some s) : P s :=
  stateAfter_rec (P := fun _ => P) hInitial (fun _ => hStep) h

theorem Clears.succ {n : Nat} {s : State} (h : p.Clears text limits n)
    (hState : p.stateAfter text n = some s)
    (hCheck : limits.check (n + 1) s.stack.size = none) : p.Clears text limits (n + 1) := by
  intro i hi s' hState'
  rcases Nat.lt_succ_iff_lt_or_eq.1 hi with hlt | rfl
  · exact h i hlt s' hState'
  · rw [hState] at hState'
    cases hState'
    exact hCheck

theorem searchFrom_endsAt {steps : Nat} {s : State} (hState : p.stateAfter text steps = some s)
    (hClears : p.Clears text limits steps) :
    ∃ n s', p.stateAfter text n = some s' ∧ p.Clears text limits n ∧
      p.EndsAt text limits n s' (p.searchFrom text limits steps s) := by
  fun_induction searchFrom p text limits steps s with
  | case1 steps s hSteps e hCheck =>
    exact ⟨steps, s, hState, hClears, .exhausted hSteps hCheck⟩
  | case2 steps s hSteps hCheck hOverflow =>
    exact ⟨steps, s, hState, hClears, .counterOverflow hCheck hOverflow⟩
  | case3 steps s hSteps hCheck hOverflow s' hStep ih =>
    exact ih (stateAfter_succ hState hStep) (hClears.succ hState hCheck)
  | case4 steps s hSteps hCheck hOverflow s' hStep =>
    exact ⟨steps, s, hState, hClears, .matched hSteps hCheck hStep⟩
  | case5 steps s hSteps hCheck hOverflow s' hStep =>
    exact ⟨steps, s, hState, hClears, .failed hCheck hStep⟩
  | case6 steps s hSteps hCheck hOverflow f hStep =>
    exact ⟨steps, s, hState, hClears, .broken hCheck hStep⟩
  | case7 steps s hSteps =>
    exact ⟨steps, s, hState, hClears, .stepOverflow (Nat.le_of_not_lt hSteps)⟩

/-- A search ends at one of the states that the machine goes through, which no limit keeps it from
reaching. -/
theorem search_endsAt (p : Program) (text : Array Char) (limits : Limits) :
    ∃ n s, p.stateAfter text n = some s ∧ p.Clears text limits n ∧
      p.EndsAt text limits n s (p.search text limits) :=
  searchFrom_endsAt rfl fun _ hi => absurd hi (Nat.not_lt_zero _)

/-- An exhausted search has come to a state before which a limit stands. -/
theorem search_exhausted {e : Exhaustion} (h : p.search text limits = .exhausted e) :
    ∃ n s, p.stateAfter text n = some s ∧ p.Clears text limits n ∧
      limits.check (n + 1) s.stack.size = some e := by
  obtain ⟨n, s, hState, hClears, hEnds⟩ := search_endsAt p text limits
  rw [h] at hEnds
  cases hEnds with
  | exhausted _ hCheck => exact ⟨n, s, hState, hClears, hCheck⟩

/-- Without limits a search is never exhausted. -/
theorem search_unlimited_ne_exhausted (p : Program) (text : Array Char) (e : Exhaustion) :
    p.search text .unlimited ≠ .exhausted e := by
  intro h
  obtain ⟨n, s, -, -, hCheck⟩ := search_exhausted h
  cases hCheck

end Program

end BacktrackRegex
