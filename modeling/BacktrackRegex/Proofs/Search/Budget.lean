import BacktrackRegex.Proofs.Search.Counters
import BacktrackRegex.Proofs.Search.Termination

/-!
# Limits only cut a search off

A search within limits executes the same instructions, in the same states, as the search without
them.  Either none of these exceeds a limit, and the answer is that of the unlimited search, or the
search ends before the first one that does.

* `Limits.Exceeded` — a limit is too low for an instruction;
* `Limits.RaisedTo` — limits that allow at least as much;
* `searchFrom_raise` — a search that was not exhausted ends in the same way within higher limits;
* `search_of_firstExceeding` — an exhausted search reports the limit that it ran into;
* `Regex.run_limited` — what limits do to a run.
-/

set_option autoImplicit false

namespace BacktrackRegex

/-! ## Limits -/

namespace Limits

/-- Instruction number `i` exceeds a limit when `depth` entries wait before it. -/
def Exceeded (l : Limits) (i depth : Nat) : Prop :=
  (∃ limit, l.steps = some limit ∧ limit < i) ∨ ∃ limit, l.depth = some limit ∧ limit < depth

/-- Neither limit is lower in `l'`; an absent limit is higher than any other. -/
structure RaisedTo (l l' : Limits) : Prop where
  steps : ∀ limit', l'.steps = some limit' → ∃ limit, l.steps = some limit ∧ limit ≤ limit'
  depth : ∀ limit', l'.depth = some limit' → ∃ limit, l.depth = some limit ∧ limit ≤ limit'

variable {l l' : Limits} {i depth : Nat}

theorem raisedTo_unlimited (l : Limits) : l.RaisedTo .unlimited := ⟨nofun, nofun⟩

theorem Exceeded.of_raisedTo (hRaised : l.RaisedTo l') (h : l'.Exceeded i depth) :
    l.Exceeded i depth := by
  rcases h with ⟨limit', hSteps, hLow⟩ | ⟨limit', hDepth, hLow⟩
  · obtain ⟨limit, hLimit, hle⟩ := hRaised.steps limit' hSteps
    exact .inl ⟨limit, hLimit, by omega⟩
  · obtain ⟨limit, hLimit, hle⟩ := hRaised.depth limit' hDepth
    exact .inr ⟨limit, hLimit, by omega⟩

theorem checkDepth_eq_some_iff {e : Exhaustion} :
    l.checkDepth depth = some e ↔ ∃ limit, l.depth = some limit ∧ limit < depth ∧
      e = .depth limit := by
  unfold checkDepth
  cases l.depth with
  | none => simp
  | some limit => simp [eq_comm]

/-- The steps are looked at first. -/
theorem check_eq_some_iff {e : Exhaustion} :
    l.check i depth = some e ↔
      (∃ limit, l.steps = some limit ∧ limit < i ∧ e = .steps limit) ∨
        (∀ limit, l.steps = some limit → i ≤ limit) ∧
          ∃ limit, l.depth = some limit ∧ limit < depth ∧ e = .depth limit := by
  unfold check
  cases l.steps with
  | none => simp [checkDepth_eq_some_iff]
  | some limit =>
    by_cases hLow : limit < i
    · simp [hLow, eq_comm]
    · simp [hLow, Nat.le_of_not_lt hLow, checkDepth_eq_some_iff]

theorem check_eq_none_iff : l.check i depth = none ↔ ¬ l.Exceeded i depth := by
  rw [Option.eq_none_iff_forall_ne_some]
  simp only [ne_eq, check_eq_some_iff, Exceeded]
  constructor
  · rintro h (⟨limit, hSteps, hLow⟩ | ⟨limit, hDepth, hLow⟩)
    · exact h _ (.inl ⟨limit, hSteps, hLow, rfl⟩)
    · by_cases hStep : ∃ limit, l.steps = some limit ∧ limit < i
      · obtain ⟨limit', hSteps, hLow'⟩ := hStep
        exact h _ (.inl ⟨limit', hSteps, hLow', rfl⟩)
      · refine h _ (.inr ⟨fun limit' hSteps => ?_, limit, hDepth, hLow, rfl⟩)
        exact Nat.le_of_not_lt fun hLow' => hStep ⟨limit', hSteps, hLow'⟩
  · rintro h e (⟨limit, hSteps, hLow, -⟩ | ⟨-, limit, hDepth, hLow, -⟩)
    · exact h (.inl ⟨limit, hSteps, hLow⟩)
    · exact h (.inr ⟨limit, hDepth, hLow⟩)

theorem check_eq_none_of_raisedTo (hRaised : l.RaisedTo l') (h : l.check i depth = none) :
    l'.check i depth = none :=
  check_eq_none_iff.2 fun hExceeded => check_eq_none_iff.1 h (hExceeded.of_raisedTo hRaised)

end Limits

namespace Program

variable {p : Program} {text : Array Char} {limits limits' : Limits}

/-! ## Searches within limits -/

/-- An instruction that no limit stands before. -/
theorem searchFrom_of_check {steps : Nat} {s : State} (hSteps : steps + 1 < stepCapacity)
    (hCheck : limits.check (steps + 1) s.stack.size = none) :
    p.searchFrom text limits steps s =
      if p.countOverflows s then .broken .counterOverflow
      else
        match p.step text s with
        | .running s' => p.searchFrom text limits (steps + 1) s'
        | .matched s' => .matched s'
        | .failed s' => .failed s'
        | .broken f => .broken f := by
  rewrite [searchFrom, dif_pos hSteps, hCheck]
  rfl

/-- Higher limits are met no earlier, so a search that was not exhausted ends in the same way.  The
induction is along the search within the lower limits. -/
theorem searchFrom_raise (hRaised : limits.RaisedTo limits') {steps : Nat} {s : State}
    (h : ∀ e, p.searchFrom text limits steps s ≠ .exhausted e) :
    p.searchFrom text limits' steps s = p.searchFrom text limits steps s := by
  fun_induction searchFrom p text limits steps s with
  | case1 steps s hSteps e hCheck => exact absurd rfl (h e)
  | case2 steps s hSteps hCheck hOverflow =>
    rw [searchFrom_of_check hSteps (Limits.check_eq_none_of_raisedTo hRaised hCheck),
      if_pos hOverflow]
  | case3 steps s hSteps hCheck hOverflow s' hStep ih =>
    rw [searchFrom_of_check hSteps (Limits.check_eq_none_of_raisedTo hRaised hCheck),
      if_neg hOverflow, hStep]
    exact ih h
  | case4 steps s hSteps hCheck hOverflow s' hStep =>
    rw [searchFrom_of_check hSteps (Limits.check_eq_none_of_raisedTo hRaised hCheck),
      if_neg hOverflow, hStep]
  | case5 steps s hSteps hCheck hOverflow s' hStep =>
    rw [searchFrom_of_check hSteps (Limits.check_eq_none_of_raisedTo hRaised hCheck),
      if_neg hOverflow, hStep]
  | case6 steps s hSteps hCheck hOverflow f hStep =>
    rw [searchFrom_of_check hSteps (Limits.check_eq_none_of_raisedTo hRaised hCheck),
      if_neg hOverflow, hStep]
  | case7 steps s hSteps => rw [searchFrom, dif_neg hSteps]

theorem run_raise (hRaised : limits.RaisedTo limits') {a : Option Trace}
    (h : p.run text limits = .ok (.ok a)) : p.run text limits' = .ok (.ok a) := by
  have hEnding : ∀ e, p.search text limits ≠ .exhausted e := by
    intro e hSearch
    rw [run, hSearch] at h
    cases h
  rw [run, search, searchFrom_raise hRaised hEnding, ← search, ← run, h]

/-! ## The first instruction that exceeds a limit -/

/-- Instruction number `i`, executed in the state `s`, is the first one that exceeds a limit. -/
structure FirstExceeding (p : Program) (text : Array Char) (limits : Limits) (i : Nat) (s : State) :
    Prop where
  executes : p.Executes text i s
  exceeded : limits.Exceeded i s.stack.size
  first : ∀ j < i, ∀ s', p.Executes text j s' → ¬ limits.Exceeded j s'.stack.size

/-- If an instruction exceeds a limit, some instruction is the first one that does. -/
theorem exists_firstExceeding {i : Nat} {s : State} (hExecutes : p.Executes text i s)
    (hExceeded : limits.Exceeded i s.stack.size) : ∃ j t, p.FirstExceeding text limits j t := by
  induction i using Nat.strong_induction_on generalizing s with
  | _ i ih =>
    by_cases hEarlier : ∃ j < i, ∃ t, p.Executes text j t ∧ limits.Exceeded j t.stack.size
    · obtain ⟨j, hlt, t, hExecutes', hExceeded'⟩ := hEarlier
      exact ih j hlt hExecutes' hExceeded'
    · exact ⟨i, s, hExecutes, hExceeded, fun j hlt t hExecutes' hExceeded' =>
        hEarlier ⟨j, hlt, t, hExecutes', hExceeded'⟩⟩

/-- What overflows before a limit is met overflows without limits too. -/
theorem Overflows.unlimited {f : Fault} (h : p.Overflows text limits f) :
    p.Overflows text .unlimited f := by
  cases h with
  | steps hState _ hFull => exact .steps hState (fun _ _ _ _ => rfl) hFull
  | counts hState _ hFull => exact .counts hState (fun _ _ _ _ => rfl) hFull

/-- Nothing overflows in a search that is over soon enough and whose unbounded loops can count to
their minimum and all characters of the text on top of it. -/
theorem not_overflows {r : Regex} {n : Nat} (hOver : (compile r).stateAfter text n = none)
    (hSteps : n < stepCapacity)
    (hCounts : ∀ q ∈ r.quantifiers, q.max = none →
      max q.min.toNat 1 + text.size < countCapacity) (f : Fault) :
    ¬ (compile r).Overflows text limits f := by
  rintro (⟨hState, -, hFull⟩ | ⟨hState, -, hFull⟩)
  · obtain ⟨s, hReached⟩ := stateAfter_of_le hState (show n ≤ _ by omega)
    rw [hOver] at hReached
    cases hReached
  · rw [countOverflows_eq_false r hCounts hState] at hFull
    cases hFull

/-- Where all numbers fit their words, a search ends only at a limit or where it halts. -/
theorem EndsAt.exhausted_or {n : Nat} {s : State} {ending : Ending}
    (hFits : ∀ f, ¬ p.Overflows text .unlimited f) (hState : p.stateAfter text n = some s)
    (h : p.EndsAt text limits n s ending) :
    (∃ e, limits.check (n + 1) s.stack.size = some e ∧ ending = .exhausted e) ∨
      limits.check (n + 1) s.stack.size = none ∧ ∀ s', p.step text s ≠ .running s' := by
  have hClears : p.Clears text .unlimited n := fun _ _ _ _ => rfl
  cases h with
  | exhausted _ hCheck => exact .inl ⟨_, hCheck, rfl⟩
  | stepOverflow hFull => exact absurd (.steps hState hClears hFull) (hFits _)
  | counterOverflow _ hFull => exact absurd (.counts hState hClears hFull) (hFits _)
  | matched _ hCheck hStep => exact .inr ⟨hCheck, by simp [hStep]⟩
  | failed hCheck hStep => exact .inr ⟨hCheck, by simp [hStep]⟩
  | broken hCheck hStep => exact .inr ⟨hCheck, by simp [hStep]⟩

/-- Before the first instruction that exceeds a limit the search ends, with the report of the limit
that is looked at first. -/
theorem search_of_firstExceeding (hFits : ∀ f, ¬ p.Overflows text .unlimited f) {i : Nat}
    {s : State} (h : p.FirstExceeding text limits i s) :
    ∃ e, limits.check i s.stack.size = some e ∧ p.search text limits = .exhausted e := by
  obtain ⟨hExecutes, hExceeded, hFirst⟩ := h
  cases hExecutes with
  | @intro m _ hState =>
    have hBlocked : limits.check (m + 1) s.stack.size ≠ none :=
      fun hNone => Limits.check_eq_none_iff.1 hNone hExceeded
    obtain ⟨n, s', hState', hClears, hEnds⟩ := search_endsAt p text limits
    have hEnd := hEnds.exhausted_or hFits hState'
    have hle : n ≤ m := Nat.le_of_not_lt fun hlt => hBlocked (hClears m hlt s hState)
    rcases Nat.lt_or_eq_of_le hle with hBefore | rfl
    · -- No limit stands before an earlier instruction, and the search goes on after it.
      obtain ⟨s₁, hNext⟩ := stateAfter_of_le hState (Nat.succ_le_of_lt hBefore)
      obtain ⟨s₀, hState₀, hRunning⟩ := stateAfter_succ_eq_some hNext
      rw [hState'] at hState₀
      cases hState₀
      have hClear : limits.check (n + 1) s'.stack.size = none :=
        Limits.check_eq_none_iff.2 (hFirst _ (Nat.succ_lt_succ hBefore) s' (.intro hState'))
      rcases hEnd with ⟨e, hCheck, -⟩ | ⟨-, hHalts⟩
      · rw [hClear] at hCheck
        cases hCheck
      · exact absurd hRunning (hHalts s₁)
    · rw [hState] at hState'
      cases hState'
      rcases hEnd with hExhausted | ⟨hCheck, -⟩
      · exact hExhausted
      · exact absurd hCheck hBlocked

/-- A search none of whose instructions exceeds a limit is not exhausted. -/
theorem search_ne_exhausted (h : ∀ i s, p.Executes text i s → ¬ limits.Exceeded i s.stack.size)
    (e : Exhaustion) : p.search text limits ≠ .exhausted e := by
  intro hSearch
  obtain ⟨n, s, hState, -, hCheck⟩ := search_exhausted hSearch
  rw [Limits.check_eq_none_iff.2 (h _ s (.intro hState))] at hCheck
  cases hCheck

/-- The instructions that a search executes are numbered from one up to the one that ends it. -/
theorem exists_executes_iff {last : Nat} {s : State} (hExecutes : p.Executes text last s)
    (hLast : ∀ i s', p.Executes text i s' → i ≤ last) (i : Nat) :
    (∃ s', p.Executes text i s') ↔ 1 ≤ i ∧ i ≤ last := by
  cases hExecutes with
  | intro hState =>
    constructor
    · rintro ⟨s', hExecutes⟩
      refine ⟨?_, hLast i s' hExecutes⟩
      cases hExecutes with
      | intro _ => exact Nat.succ_pos _
    · rintro ⟨hPos, hle⟩
      obtain ⟨n, rfl⟩ := Nat.exists_eq_add_one.2 hPos
      obtain ⟨s', hState'⟩ := stateAfter_of_le hState (Nat.le_of_succ_le_succ hle)
      exact ⟨s', .intro hState'⟩

end Program

namespace Regex

variable {text : Array Char} {limits limits' : Limits}

/-- A run that has come to an answer within some limits comes to the same without any. -/
theorem run_unlimited_of_ok {r : Regex} {a : Option Trace} (h : r.run text limits = .ok (.ok a)) :
    r.run text .unlimited = .ok (.ok a) :=
  Program.run_raise limits.raisedTo_unlimited h

/-- Limits that no instruction exceeds make no difference to a run. -/
theorem run_of_not_exceeded {r : Regex} (hBranched : r.Branched)
    (hFits : ∀ f, ¬ (Program.compile r).Overflows text .unlimited f)
    (h : ∀ i s, (Program.compile r).Executes text i s → ¬ limits.Exceeded i s.stack.size) :
    ∃ a, r.run text .unlimited = .ok (.ok a) ∧ r.run text limits = .ok (.ok a) := by
  rcases r.run_cases hBranched text limits with hRun | ⟨e, hExhausted, -⟩ | ⟨f, hFull, -⟩
  · exact ⟨_, run_unlimited_of_ok hRun, hRun⟩
  · exact absurd hExhausted (Program.search_ne_exhausted h e)
  · exact absurd hFull.unlimited (hFits f)

/-- A run is ended by the first instruction that exceeds a limit.  The error is that of the step
limit if the number of the instruction exceeds it, else that of the depth limit. -/
theorem run_of_firstExceeding {r : Regex}
    (hFits : ∀ f, ¬ (Program.compile r).Overflows text .unlimited f) {i : Nat} {s : State}
    (h : (Program.compile r).FirstExceeding text limits i s) :
    (∀ limit, limits.steps = some limit → limit < i →
        r.run text limits = .ok (.error (.steps limit))) ∧
      ((∀ limit, limits.steps = some limit → i ≤ limit) →
        ∃ limit, limits.depth = some limit ∧ limit < s.stack.size ∧
          r.run text limits = .ok (.error (.depth limit))) := by
  obtain ⟨e, hCheck, hSearch⟩ := Program.search_of_firstExceeding hFits h
  have hRun : r.run text limits = .ok (.error e) := by rw [run, Program.run, hSearch]
  rw [Limits.check_eq_some_iff] at hCheck
  rw [hRun]
  constructor
  · intro limit hSteps hLow
    rcases hCheck with ⟨limit', hSteps', -, rfl⟩ | ⟨hEnough, -⟩
    · rw [hSteps] at hSteps'
      cases hSteps'
      rfl
    · exact absurd hLow (Nat.not_lt_of_le (hEnough limit hSteps))
  · intro hEnough
    rcases hCheck with ⟨limit, hSteps, hLow, -⟩ | ⟨-, limit, hDepth, hLow, rfl⟩
    · exact absurd hLow (Nat.not_lt_of_le (hEnough limit hSteps))
    · exact ⟨limit, hDepth, hLow, rfl⟩

/-- What limits do to a run.  The search without limits executes the instructions from the first to
some last one.  If none of them exceeds a limit, the run gives the answer of the unlimited run; else
the first one that does ends it, with the error of the step limit where that is exceeded, and of the
depth limit otherwise.  So an answer stays the same when limits are raised, and no two limits lead
to different answers. -/
theorem run_limited (r : Regex) (hBranched : r.Branched) (text : Array Char)
    (hFits : ∀ f, ¬ (Program.compile r).Overflows text .unlimited f) (limits : Limits) :
    (∃ last, ∀ i, (∃ s, (Program.compile r).Executes text i s) ↔ 1 ≤ i ∧ i ≤ last) ∧
    ((∀ i s, (Program.compile r).Executes text i s → ¬ limits.Exceeded i s.stack.size) →
      ∃ a, r.run text .unlimited = .ok (.ok a) ∧ r.run text limits = .ok (.ok a)) ∧
    (∀ i s, (Program.compile r).Executes text i s → limits.Exceeded i s.stack.size →
      ∃ j t, (Program.compile r).FirstExceeding text limits j t) ∧
    (∀ i s, (Program.compile r).FirstExceeding text limits i s →
      (∀ limit, limits.steps = some limit → limit < i →
        r.run text limits = .ok (.error (.steps limit))) ∧
      ((∀ limit, limits.steps = some limit → i ≤ limit) →
        ∃ limit, limits.depth = some limit ∧ limit < s.stack.size ∧
          r.run text limits = .ok (.error (.depth limit)))) ∧
    (∀ limits' a, limits.RaisedTo limits' → r.run text limits = .ok (.ok a) →
      r.run text limits' = .ok (.ok a)) ∧
    (∀ limits' a a', r.run text limits = .ok (.ok a) → r.run text limits' = .ok (.ok a') →
      a = a') := by
  refine ⟨?_, run_of_not_exceeded hBranched hFits, fun i s => Program.exists_firstExceeding,
    fun i s => run_of_firstExceeding hFits,
    fun limits' a hRaised hRun => Program.run_raise hRaised hRun, fun limits' a a' hRun hRun' => ?_⟩
  · obtain ⟨last, s, hExecutes, hHalts⟩ := Program.exists_halts r hBranched text
    exact ⟨last, Program.exists_executes_iff hExecutes
      fun _ _ hOther => hHalts.le_of_executes hExecutes hOther⟩
  · have hSame := (run_unlimited_of_ok hRun).symm.trans (run_unlimited_of_ok hRun')
    cases hSame
    rfl

/-- Of the 18 instructions for the pattern `(?:a*){2,3}` in `aab`, the eighth is the first one
before which more than four entries wait.  It also exceeds a limit of seven steps, which is
reported. -/
theorem run_limited_doubledStar :
    doubledStar.Branched ∧
      (∀ f, ¬ (Program.compile doubledStar).Overflows #['a', 'a', 'b'] .unlimited f) ∧
      (∃ s, (Program.compile doubledStar).FirstExceeding #['a', 'a', 'b']
        ((Limits.unlimited.withSteps 7).withDepth (some 4)) 8 s) ∧
      doubledStar.run #['a', 'a', 'b'] ((Limits.unlimited.withSteps 7).withDepth (some 4)) =
        .ok (.error (.steps 7)) := by
  have hFits : ∀ f, ¬ (Program.compile doubledStar).Overflows #['a', 'a', 'b'] .unlimited f :=
    Program.not_overflows Program.stateAfter_doubledStar (by decide) (by decide)
  have hEighth : ((Program.compile doubledStar).stateAfter #['a', 'a', 'b'] 7).map
      (·.stack.size) = some 5 := by
    decide +kernel
  have hEarlier : ∀ n < 7, ((Program.compile doubledStar).stateAfter #['a', 'a', 'b'] n).all
      (·.stack.size ≤ 4) = true := by
    decide +kernel
  obtain ⟨s, hState, hSize⟩ := Option.map_eq_some_iff.1 hEighth
  have hFirst : (Program.compile doubledStar).FirstExceeding #['a', 'a', 'b']
      ((Limits.unlimited.withSteps 7).withDepth (some 4)) 8 s := by
    refine ⟨.intro hState, .inl ⟨7, rfl, by decide⟩, ?_⟩
    rintro j hj s' ⟨hState'⟩ (⟨limit, hSteps, hLow⟩ | ⟨limit, hDepth, hLow⟩)
    · cases hSteps
      omega
    · cases hDepth
      have hAll := hEarlier _ (Nat.lt_of_succ_lt_succ hj)
      rw [hState', Option.all_some, decide_eq_true_eq] at hAll
      omega
  obtain ⟨-, -, -, hCut, -⟩ := run_limited doubledStar branched_doubledStar _ hFits
    ((Limits.unlimited.withSteps 7).withDepth (some 4))
  exact ⟨branched_doubledStar, hFits, ⟨s, hFirst⟩, (hCut 8 s hFirst).1 7 rfl (by decide)⟩

end Regex

end BacktrackRegex
