import BacktrackRegex.Proofs.Search.Counters
import BacktrackRegex.Proofs.Search.Priority

/-!
# All counters stay in range

While a thread is in a loop, the counter of the loop is in range for its place.  But the counters of
the other loops are there as well: those of loops that were left, or that an iteration around them
will start again, and those that backtracking puts back from the stack.  No step takes any of them
out of range, and no iteration starts behind the place that the search has come to.

* `Quantifier.InRange` — a counter that a loop with this quantifier can have;
* `Thread.InRange` — all counters of a thread are in range;
* `Program.Within.inRange_next` — a step keeps all of them in range;
* `counters_inRange` — the counters of every state of a search.
-/

set_option autoImplicit false

namespace BacktrackRegex

/-! ## One counter -/

namespace Quantifier

/-- A counter that a loop can have when the search is at the place `pos` of the text, in the loop or
outside of it. -/
structure InRange (q : Quantifier) (counter : Counter) (pos : Nat) : Prop where
  bounded : ∀ m, q.max = some m → counter.count ≤ m.toNat
  unbounded : counter.count ≤ Max.max q.min.toNat 1 + pos
  start : counter.start ≤ pos

variable {q : Quantifier} {counter : Counter} {pos pos' : Nat}

theorem inRange_zero (q : Quantifier) {start : Nat} (hStart : start ≤ pos) :
    q.InRange ⟨0, start⟩ pos :=
  ⟨fun _ _ => Nat.zero_le _, Nat.zero_le _, hStart⟩

theorem InRange.mono (h : q.InRange counter pos) (hPos : pos ≤ pos') : q.InRange counter pos' :=
  ⟨h.bounded, h.unbounded.trans (Nat.add_le_add_left hPos _), h.start.trans hPos⟩

/-- What the end of an iteration makes of its counter. -/
theorem InBody.inRange (h : q.InBody counter pos) : q.InRange ⟨counter.count + 1, pos⟩ pos where
  bounded m hMax := h.bounded m hMax
  unbounded := by
    have hCount := h.unbounded
    have hStart := h.start
    show counter.count + 1 ≤ Max.max q.min.toNat 1 + pos
    omega
  start := Nat.le_refl pos

end Quantifier

/-! ## All counters of a thread -/

namespace Thread

/-- There is one counter for each of the quantifiers, in range for it. -/
structure InRange (t : Thread) (quantifiers : List Quantifier) : Prop where
  size : t.counters.size = quantifiers.length
  range : ∀ (slot : Nat) (q : Quantifier) (counter : Counter), quantifiers[slot]? = some q →
    t.counters[slot]? = some counter → q.InRange counter t.pos

variable {t u : Thread} {quantifiers : List Quantifier}

theorem inRange_initial (r : Regex) : (initial r.slotCount).InRange r.quantifiers := by
  constructor
  · rw [initial, Array.size_replicate, r.quantifiers_length]
  · intro slot q counter _ hCounter
    have hZero : counter = {} := by
      simp only [initial, Array.getElem?_replicate] at hCounter
      split at hCounter
      · exact (Option.some.inj hCounter).symm
      · cases hCounter
    rw [hZero]
    exact q.inRange_zero (Nat.le_refl 0)

/-- A step that touches no counter. -/
theorem InRange.of_eq (h : t.InRange quantifiers) (hPos : t.pos ≤ u.pos)
    (hCounters : u.counters = t.counters) : u.InRange quantifiers := by
  constructor
  · rw [hCounters, h.size]
  · intro slot q counter hAt hCounter
    rw [hCounters] at hCounter
    exact (h.range slot q counter hAt hCounter).mono hPos

/-- A step that sets a counter to a new one in range. -/
theorem InRange.of_set {slot : Nat} {counter : Counter} (h : t.InRange quantifiers)
    (hNew : ∀ q, quantifiers[slot]? = some q → q.InRange counter t.pos) (hPos : u.pos = t.pos)
    (hCounters : u.counters = t.counters.setIfInBounds slot counter) :
    u.InRange quantifiers := by
  constructor
  · rw [hCounters, Array.size_setIfInBounds, h.size]
  · intro i q counter' hAt hCounter
    rw [hCounters] at hCounter
    rw [hPos]
    by_cases hSlot : slot = i
    · subst hSlot
      have hSame : counter' = counter := by
        rw [Array.getElem?_setIfInBounds_self] at hCounter
        split at hCounter
        · exact (Option.some.inj hCounter).symm
        · cases hCounter
      rw [hSame]
      exact hNew q hAt
    · rw [Array.getElem?_setIfInBounds_ne hSlot] at hCounter
      exact h.range i q counter' hAt hCounter

end Thread

/-! ## Loops and their quantifiers -/

mutual

/-- The quantifier at the head of a loop is the one that belongs to its slot. -/
theorem Regex.quantifier_of_loopHead : ∀ (r : Regex) (base slot : Nat) {i exit : Nat}
    {q : Quantifier}, .loopHead i q exit ∈ r.code base slot →
    ∃ k, i = slot + k ∧ r.quantifiers[k]? = some q
  | .seq items, base, slot, _, _, _, h => itemsQuantifier_of_loopHead items base slot h
  | .alt branches, base, slot, _, _, _, h => by
    rcases List.mem_cons.1 h with h | h
    · cases h
    · exact branchesQuantifier_of_loopHead branches _ slot _ h
  | .group _ body, base, slot, _, _, _, h => Regex.quantifier_of_loopHead body base slot h
  | .leaf _, _, _, _, _, _, h => by
    cases List.mem_singleton.1 h

theorem itemsQuantifier_of_loopHead : ∀ (items : List (Regex × Quantifier)) (base slot : Nat)
    {i exit : Nat} {q : Quantifier}, .loopHead i q exit ∈ itemsCode base slot items →
    ∃ k, i = slot + k ∧ (itemsQuantifiers items)[k]? = some q
  | [], _, _, _, _, _, h => by cases h
  | (r, q) :: items, base, slot, _, _, _, h => by
    simp only [itemsCode, List.mem_cons, List.mem_append] at h
    rcases h with h | h | h | h | h
    · cases h
    · cases h
      exact ⟨0, rfl, rfl⟩
    · obtain ⟨k, hSlot, hAt⟩ := r.quantifier_of_loopHead _ _ h
      exact ⟨k + 1, by omega, itemsQuantifiers_body hAt⟩
    · cases h
    · obtain ⟨k, hSlot, hAt⟩ := itemsQuantifier_of_loopHead items _ _ h
      exact ⟨r.slotCount + k + 1, by omega, itemsQuantifiers_later hAt⟩

theorem branchesQuantifier_of_loopHead : ∀ (branches : List Regex) (base slot exit' : Nat)
    {i exit : Nat} {q : Quantifier}, .loopHead i q exit ∈ branchesCode base slot exit' branches →
    ∃ k, i = slot + k ∧ (branchesQuantifiers branches)[k]? = some q
  | [], _, _, _, _, _, _, h => by cases h
  | r :: branches, base, slot, exit', _, _, _, h => by
    simp only [branchesCode, List.mem_append, List.mem_cons] at h
    rcases h with h | h | h
    · obtain ⟨k, hSlot, hAt⟩ := r.quantifier_of_loopHead _ _ h
      exact ⟨k, hSlot, branchesQuantifiers_first hAt⟩
    · cases h
    · obtain ⟨k, hSlot, hAt⟩ := branchesQuantifier_of_loopHead branches _ _ _ h
      exact ⟨r.slotCount + k, by omega, branchesQuantifiers_later hAt⟩

end

namespace Program

variable {r : Regex} {text : Array Char} {t : Thread} {ts : List Thread}

/-- The program of a regex has at each slot a loop with the quantifier of that slot. -/
theorem quantifier_of_loopHead {slot exit : Nat} {q : Quantifier}
    (h : .loopHead slot q exit ∈ (compile r).code) : r.quantifiers[slot]? = some q := by
  simp only [compile, List.mem_toArray, List.mem_append, List.mem_singleton] at h
  rcases h with h | h
  · obtain ⟨k, hSlot, hAt⟩ := r.quantifier_of_loopHead 0 0 h
    rwa [hSlot, Nat.zero_add]
  · cases h

/-! ## Steps -/

/-- A step keeps all counters in range.  A counter is set to zero where a loop starts, and one more
where an iteration ends, which is where a counter that was in range during the iteration is known
to have room for it. -/
theorem Within.inRange_next (hWithin : Within r text t) (h : t.InRange r.quantifiers)
    (hNext : (compile r).successors text t = .ok ts) : ∀ u ∈ ts, u.InRange r.quantifiers := by
  intro u hu
  unfold successors at hNext
  split at hNext
  case h_1 => cases hNext
  case h_2 =>
    cases hNext
    split at hu
    · rw [List.mem_singleton.1 hu]
      exact h.of_eq (Nat.le_succ _) rfl
    · cases hu
  case h_3 =>
    split at hNext <;> cases hNext
    obtain ⟨-, hPos, hCounters⟩ := Thread.mem_fork hu
    exact h.of_eq hPos.ge hCounters
  case h_4 =>
    cases hNext
    rw [List.mem_singleton.1 hu]
    exact h.of_eq (Nat.le_refl _) rfl
  case h_5 =>
    split at hNext <;> cases hNext
    rw [List.mem_singleton.1 hu]
    exact h.of_set (fun q _ => q.inRange_zero (Nat.le_refl _)) rfl rfl
  case h_6 =>
    split at hNext <;> cases hNext
    rcases List.mem_append.1 hu with hIterate | hStop
    · split at hIterate
      · rw [List.mem_singleton.1 hIterate]
        exact h.of_eq (Nat.le_refl _) rfl
      · cases hIterate
    · split at hStop
      · rw [List.mem_singleton.1 hStop]
        exact h.of_eq (Nat.le_refl _) rfl
      · cases hStop
  case h_7 slot head hEnd =>
    obtain ⟨q, counter, hAt, ⟨exit, hHead⟩, hFound, hRange⟩ := hWithin.closes hEnd
    simp only [hHead, hFound] at hNext
    cases hNext
    have hNew : ∀ q', r.quantifiers[slot]? = some q' →
        q'.InRange ⟨counter.count + 1, t.pos⟩ t.pos := by
      intro q' hAt'
      cases hAt.symm.trans hAt'
      exact hRange.inRange
    rw [List.mem_singleton.1 hu, endSuccessor]
    split
    · exact h.of_set hNew rfl rfl
    · exact h.of_set hNew rfl rfl
  case h_8 =>
    cases hNext
    cases hu

/-- In every state of a search all threads have their counters in range. -/
theorem threads_inRange (r : Regex) {n : Nat} {s : State}
    (hState : (compile r).stateAfter text n = some s) :
    ∀ t ∈ (compile r).threads s, t.InRange r.quantifiers := by
  have hNext : ∀ t ts, Within r text t ∧ t.InRange r.quantifiers →
      (compile r).successors text t = .ok ts →
      ∀ u ∈ ts, Within r text u ∧ u.InRange r.quantifiers := by
    intro t ts ⟨hWithin, hRange⟩ hNext u hu
    exact ⟨hWithin.next hNext u hu, hWithin.inRange_next hRange hNext u hu⟩
  have hInitial := Thread.inRange_initial r
  have hAll := (threads_induction ⟨within_initial r text, hInitial⟩ hNext hState).2
  exact fun t ht => (hAll t ht).2

/-! ## States -/

/-- In every state of a search there is one counter for each quantifier of the regex, which is the
quantifier at the head of the loop with that slot.  The counter has counted no further than the
maximum or, without one, than the minimum (or one) and the characters of the text together, and its
iteration has started no later than the place where the search is.  So the count at the end of an
iteration fits its word in a loop with a maximum, and in one without if that sum does. -/
theorem counters_inRange (r : Regex) {n : Nat} {s : State}
    (hState : (compile r).stateAfter text n = some s) :
    s.counters.size = (compile r).slots ∧ s.counters.size = r.quantifiers.length ∧
    (∀ slot q exit, .loopHead slot q exit ∈ (compile r).code → r.quantifiers[slot]? = some q) ∧
    (∀ (slot : Nat) q (counter : Counter), r.quantifiers[slot]? = some q →
      s.counters[slot]? = some counter →
      (∀ m, q.max = some m → counter.count ≤ m.toNat) ∧
      (q.max = none → counter.count ≤ max q.min.toNat 1 + text.size) ∧
      counter.start ≤ s.pos) ∧
    ∀ slot head, (compile r).code[s.pc]? = some (.loopEnd slot head) →
      ∃ q exit counter, (compile r).code[head]? = some (.loopHead slot q exit) ∧
        s.counters[slot]? = some counter ∧
        ((q.max = none → max q.min.toNat 1 + text.size < countCapacity) →
          counter.count + 1 < countCapacity ∧ (compile r).countOverflows s = false) := by
  have hWithin : Within r text s.thread := threads_active r hState _ List.mem_cons_self
  have hRange : s.thread.InRange r.quantifiers := threads_inRange r hState _ List.mem_cons_self
  have hSize : s.counters.size = r.quantifiers.length := hRange.size
  refine ⟨hSize.trans r.quantifiers_length, hSize, fun _ _ _ => quantifier_of_loopHead, ?_, ?_⟩
  · intro slot q counter hAt hCounter
    obtain ⟨hBounded, hUnbounded, hStart⟩ := hRange.range slot q counter hAt hCounter
    exact ⟨hBounded, fun _ => hUnbounded.trans (Nat.add_le_add_left hWithin.2 _), hStart⟩
  · intro slot head hEnd
    obtain ⟨q, counter, -, ⟨exit, hHead⟩, hFound, hInBody⟩ := hWithin.closes hEnd
    have hCounter : s.counters[slot]? = some counter := hFound
    refine ⟨q, exit, counter, hHead, hCounter, fun hFits => ?_⟩
    have hCount := hInBody.count_lt hWithin.2 hFits
    refine ⟨hCount, ?_⟩
    simp only [countOverflows, hEnd, hCounter, decide_eq_false_iff_not, Nat.not_le]
    exact hCount

/-- In the search for `(?:a*){2,3}` in `aab`, the failure at the `b` leads back to the end of the
first iteration around the star.  The star has counted two iterations by then. -/
theorem counters_inRange_resumed :
    ∃ s, (compile .doubledStar).stateAfter #['a', 'a', 'b'] 11 = some s ∧
      s.counters[1]? = some ⟨2, 2⟩ ∧ 2 ≤ max 0 1 + 3 ∧ 2 ≤ s.pos ∧
      (compile .doubledStar).code[s.pc]? = some (.loopEnd 0 1) ∧
      ∃ q exit counter, (compile .doubledStar).code[1]? = some (.loopHead 0 q exit) ∧
        s.counters[0]? = some counter ∧ counter.count + 1 < countCapacity := by
  have hComputed : ((compile .doubledStar).stateAfter #['a', 'a', 'b'] 11).map
      (fun s => (s.pc, s.counters)) = some (6, #[⟨0, 0⟩, ⟨2, 2⟩]) := by
    decide +kernel
  obtain ⟨s, hState, hFields⟩ := Option.map_eq_some_iff.1 hComputed
  obtain ⟨hPc, hCounters⟩ := Prod.mk.inj hFields
  obtain ⟨-, -, -, hRange, hEnds⟩ := counters_inRange .doubledStar hState
  have hStar : s.counters[1]? = some ⟨2, 2⟩ := by
    rw [hCounters]
    rfl
  have hEnd : (compile .doubledStar).code[s.pc]? = some (.loopEnd 0 1) := by
    rw [hPc]
    rfl
  obtain ⟨-, hUnbounded, hStart⟩ := hRange 1 .zeroOrMore ⟨2, 2⟩ rfl hStar
  obtain ⟨q, exit, counter, hHead, hCounter, hCount⟩ := hEnds 0 1 hEnd
  have hBounded : q.max = none → max q.min.toNat 1 + 3 < countCapacity := by
    cases hHead
    intro hNone
    cases hNone
  exact ⟨s, hState, hStar, hUnbounded rfl, hStart, hEnd, q, exit, counter, hHead, hCounter,
    (hCount hBounded).1⟩

end Program

end BacktrackRegex
