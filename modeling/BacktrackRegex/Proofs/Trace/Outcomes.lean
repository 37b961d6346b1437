import BacktrackRegex.Proofs.Trace.Shape

/-!
# All outcomes of a match

What a regex can match from a place of the text, as the list of all traces with the places where
they end, best first.  The list is put together as the regex is, with no machine in between: an
alternation puts the outcomes of its branches one after the other, a sequence goes on after each
outcome of an item with the outcomes of the next one, and a repetition prefers one more iteration to
stopping.

* `Outcomes` — such lists for every place; an outcome ends neither before its start nor outside
  the text, so an iteration either takes characters or counts towards the minimum;
* `Outcomes.iterations` — the repetition;
* `Regex.outcomes`, `Regex.traces` — the outcomes of a regex, and its traces from the start of a
  text.
-/

set_option autoImplicit false

namespace BacktrackRegex

/-- One way to match, and the place where it ends. -/
structure Outcome (α : Type) where
  value : α
  stop : Nat

/-- The same end, reached in what counts as another way. -/
def Outcome.map {α β : Type} (f : α → β) (o : Outcome α) : Outcome β := ⟨f o.value, o.stop⟩

/-- For every place of a text of `size` characters the outcomes of a match that starts there, best
first. -/
structure Outcomes (size : Nat) (α : Type) where
  run : Nat → List (Outcome α)
  inText : ∀ {pos o}, o ∈ run pos → pos ≤ o.stop ∧ o.stop ≤ max pos size

namespace Outcomes

variable {size : Nat}

/-! ## Repetitions -/

/-- The ways to repeat `body` from `pos` on when `count` iterations are done.  While the quantifier
allows more, each outcome of one more iteration comes first, with all ways to go on from it; an
empty iteration with which the minimum is reached is the last one.  Then, if the minimum is reached
already, comes stopping here. -/
def iterations (body : Outcomes size Trace) (q : Quantifier) (count pos : Nat) :
    List (Outcome (List Trace)) :=
  (if q.allowsMore count then
    (body.run pos).flatMap fun o =>
      if o.stop = pos ∧ q.allowsStop (count + 1) then [⟨[o.value], o.stop⟩]
      else (body.iterations q (count + 1) o.stop).map (Outcome.map (o.value :: ·))
  else []) ++ if q.allowsStop count then [⟨[], pos⟩] else []
termination_by (q.min.toNat - count) + (size - pos)
decreasing_by
  rename_i hMem hGoesOn
  have := body.inText hMem
  simp only [Quantifier.allowsStop, decide_eq_true_eq] at hGoesOn
  omega

theorem iterations_inText {body : Outcomes size Trace} {q : Quantifier} {count pos : Nat}
    {o : Outcome (List Trace)} (h : o ∈ body.iterations q count pos) :
    pos ≤ o.stop ∧ o.stop ≤ max pos size := by
  fun_induction iterations body q count pos generalizing o with
  | case1 count pos ih =>
    rcases List.mem_append.1 h with hMore | hStop
    · split at hMore
      · obtain ⟨first, hFirst, hRest⟩ := List.mem_flatMap.1 hMore
        have hText := body.inText hFirst
        split at hRest
        · rw [List.mem_singleton] at hRest
          rw [hRest]
          exact hText
        · rename_i hGoesOn
          obtain ⟨later, hLater, rfl⟩ := List.mem_map.1 hRest
          have := ih first hFirst hGoesOn hLater
          show pos ≤ later.stop ∧ later.stop ≤ max pos size
          omega
      · cases hMore
    · split at hStop
      · rw [List.mem_singleton] at hStop
        rw [hStop]
        exact ⟨Nat.le_refl _, Nat.le_max_left _ _⟩
      · cases hStop

/-- The outcomes of an item of a sequence. -/
def repeated (q : Quantifier) (body : Outcomes size Trace) : Outcomes size (Repetition Trace) where
  run pos := (body.iterations q 0 pos).map fun o => ⟨⟨⟨pos, o.stop - pos⟩, o.value⟩, o.stop⟩
  inText h := by
    obtain ⟨o, hMem, rfl⟩ := List.mem_map.1 h
    exact iterations_inText hMem

/-! ## Sequences -/

/-- The outcome of no items at all. -/
def none : Outcomes size (List (Repetition Trace)) where
  run pos := [⟨[], pos⟩]
  inText h := by
    rw [List.mem_singleton] at h
    rw [h]
    exact ⟨Nat.le_refl _, Nat.le_max_left _ _⟩

/-- After each outcome of an item all outcomes of the items after it. -/
def more (item : Outcomes size (Repetition Trace))
    (items : Outcomes size (List (Repetition Trace))) :
    Outcomes size (List (Repetition Trace)) where
  run pos := (item.run pos).flatMap fun o => (items.run o.stop).map (Outcome.map (o.value :: ·))
  inText {pos o} h := by
    obtain ⟨first, hFirst, hRest⟩ := List.mem_flatMap.1 h
    obtain ⟨later, hLater, rfl⟩ := List.mem_map.1 hRest
    have := item.inText hFirst
    have := items.inText hLater
    show pos ≤ later.stop ∧ later.stop ≤ max pos size
    omega

/-- The outcomes of a sequence over those of its items. -/
def sequence (items : Outcomes size (List (Repetition Trace))) : Outcomes size Trace where
  run pos := (items.run pos).map fun o => ⟨.seq ⟨pos, o.stop - pos⟩ o.value, o.stop⟩
  inText h := by
    obtain ⟨o, hMem, rfl⟩ := List.mem_map.1 h
    exact items.inText hMem

/-! ## Alternations, groups and leaves -/

/-- The outcomes of no branch at all. -/
def fail : Outcomes size Trace where
  run _ := []
  inText h := by cases h

/-- The outcomes of the branch with this number, then those of the branches after it. -/
def orElse (branch : Nat) (first later : Outcomes size Trace) : Outcomes size Trace where
  run pos := (first.run pos).map (Outcome.map (.alt branch)) ++ later.run pos
  inText h := by
    rcases List.mem_append.1 h with hFirst | hLater
    · obtain ⟨o, hMem, rfl⟩ := List.mem_map.1 hFirst
      have hText := first.inText hMem
      exact hText
    · exact later.inText hLater

/-- The outcomes of a group over those of its body. -/
def group (body : Outcomes size Trace) : Outcomes size Trace where
  run pos := (body.run pos).map (Outcome.map fun t => .group t.span t)
  inText h := by
    obtain ⟨o, hMem, rfl⟩ := List.mem_map.1 h
    have hText := body.inText hMem
    exact hText

/-- A leaf takes the next character if there is one that it accepts. -/
def char (text : Array Char) (set : CharSet) : Outcomes text.size Trace where
  run pos := if text[pos]?.any set.accepts then [⟨.char ⟨pos, 1⟩, pos + 1⟩] else []
  inText {pos o} h := by
    split at h
    · rename_i hAccepts
      rw [List.mem_singleton] at h
      rw [h]
      have hPos : pos < text.size := by
        refine Nat.lt_of_not_le fun hLe => ?_
        rw [Array.getElem?_eq_none hLe] at hAccepts
        cases hAccepts
      show pos ≤ pos + 1 ∧ pos + 1 ≤ max pos text.size
      omega
    · cases h

end Outcomes

mutual

/-- The outcomes of a regex in a text. -/
def Regex.outcomes (text : Array Char) : Regex → Outcomes text.size Trace
  | .seq items => .sequence (itemsOutcomes text items)
  | .alt branches => branchesOutcomes text 0 branches
  | .group _ body => .group (body.outcomes text)
  | .leaf set => .char text set

/-- The outcomes of the items of a sequence. -/
def itemsOutcomes (text : Array Char) :
    List (Regex × Quantifier) → Outcomes text.size (List (Repetition Trace))
  | [] => .none
  | (r, q) :: items => .more (.repeated q (r.outcomes text)) (itemsOutcomes text items)

/-- The outcomes of branches, the first of which has the number `branch`. -/
def branchesOutcomes (text : Array Char) (branch : Nat) : List Regex → Outcomes text.size Trace
  | [] => .fail
  | r :: branches =>
    .orElse branch (r.outcomes text) (branchesOutcomes text (branch + 1) branches)

end

/-- The traces of all matches of a regex at the start of a text, best first. -/
def Regex.traces (text : Array Char) (r : Regex) : List Trace :=
  ((r.outcomes text).run 0).map Outcome.value

end BacktrackRegex
