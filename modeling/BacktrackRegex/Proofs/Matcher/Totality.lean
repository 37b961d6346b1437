import BacktrackRegex.Matcher
import BacktrackRegex.Proofs.Captures.Resolution
import BacktrackRegex.Proofs.Pattern.Numbering
import BacktrackRegex.Proofs.Search.Counters
import BacktrackRegex.Proofs.Search.Priority

/-!
# Matching never faults

A matcher that was built from a pattern answers every call: what its parts have to promise one
another holds for every text.  The only conditions are that the numbers of the steps and the counts
of the unbounded loops fit their words.

* `Matcher.StepsFit`, `Matcher.CountsFit` — the two conditions;
* `Matcher.answers` — every call gives an answer;
* `Matcher.stepsFit_of_limit` — a step limit is enough for the first condition.
-/

set_option autoImplicit false

namespace BacktrackRegex

namespace Matcher

/-- The search begins fewer instructions than its step counter can count, the one before which a
limit ends it included. -/
def StepsFit (m : Matcher) (text : String) (limits : Limits) : Prop :=
  ∀ n s, m.program.stateAfter text.toList.toArray n = some s →
    m.program.Clears text.toList.toArray limits n → n + 1 < stepCapacity

/-- The unbounded loops of the pattern can count to their minimum and all characters of the text on
top of it. -/
def CountsFit (m : Matcher) (text : String) : Prop :=
  ∀ q ∈ m.regex.quantifiers, q.max = none → max q.min.toNat 1 + text.length < countCapacity

variable {m : Matcher} {pattern text : String} {limits limits' : Limits}

/-- A step limit below the range of the counter keeps the steps in it. -/
theorem stepsFit_of_limit {limit : Nat} (h : limits.steps = some limit)
    (hLimit : limit + 1 < stepCapacity) : m.StepsFit text limits := by
  intro n s hState hClears
  cases n with
  | zero => omega
  | succ n =>
    obtain ⟨s', hState', -⟩ := Program.stateAfter_succ_eq_some hState
    have hCheck := hClears n (Nat.lt_succ_self n) s' hState'
    rw [Limits.check, h] at hCheck
    dsimp only at hCheck
    split at hCheck
    · cases hCheck
    · omega

/-! ## Runs and captures -/

/-- What building a matcher gives: the program of a regex with its groups numbered from one and no
alternation without branches. -/
theorem build_spec (h : (build pattern limits').value = .ok m) :
    ∃ r : Regex, m.program = .compile r ∧ r.Branched ∧ r.NumberedFrom 1 := by
  unfold build at h
  split at h
  · cases h
  · rename_i r hParse
    cases h
    obtain ⟨hBranched, hNumbered⟩ := parse_reads hParse
    exact ⟨r, rfl, hBranched, hNumbered⟩

/-- The two conditions keep every number of the search in its word. -/
theorem not_overflows_of_fit {r : Regex} (hProgram : m.program = .compile r)
    (hSteps : m.StepsFit text limits) (hCounts : m.CountsFit text) (f : Fault) :
    ¬ m.program.Overflows text.toList.toArray limits f := by
  have hSize : text.toList.toArray.size = text.length := by
    rw [List.size_toArray, String.length_toList]
  rw [CountsFit, regex, hProgram, ← hSize] at hCounts
  rw [StepsFit, hProgram] at hSteps
  rw [hProgram]
  intro hFull
  cases hFull with
  | @steps n s hState hClears hFull =>
    have := hSteps n s hState hClears
    omega
  | @counts n s hState hClears hFull =>
    rw [Program.countOverflows_eq_false r hCounts hState] at hFull
    cases hFull

/-- A search whose counters fit their words finds the first trace, or none, or ends at a limit. -/
theorem run_answers {r : Regex} (hProgram : m.program = .compile r) (hBranched : r.Branched)
    (hSteps : m.StepsFit text limits) (hCounts : m.CountsFit text) :
    (∃ e, m.program.run text.toList.toArray limits = .ok (.error e)) ∨
      m.program.run text.toList.toArray limits =
        .ok (.ok (r.traces text.toList.toArray).head?) := by
  have hFits := not_overflows_of_fit hProgram hSteps hCounts
  rw [hProgram] at hFits ⊢
  exact r.run_of_not_overflows hBranched hFits

theorem resolve_answers {r : Regex} (hNumbered : r.NumberedFrom 1) {chars : Array Char} {t : Trace}
    (h : t ∈ r.traces chars) : ∃ entries, resolve r t chars = .ok entries := by
  obtain ⟨hFits, hWithin⟩ := Regex.fits_within_of_mem_traces h
  obtain ⟨spans, hOk, hLength, hLists⟩ := r.groupSpans_spec 1 t hNumbered hFits
  exact ⟨_, resolve_eq_trim hOk hLength hLists hWithin⟩

/-! ## Calls -/

theorem tryIsMatch_answers (hBuild : (build pattern limits').value = .ok m)
    (hSteps : m.StepsFit text limits) (hCounts : m.CountsFit text) :
    ∃ found, m.tryIsMatch text limits = .ok found := by
  obtain ⟨r, hProgram, hBranched, -⟩ := build_spec hBuild
  rw [tryIsMatch]
  rcases run_answers hProgram hBranched hSteps hCounts with ⟨e, hRun⟩ | hRun
  · rw [hRun]
    exact ⟨_, rfl⟩
  · rw [hRun]
    exact ⟨_, rfl⟩

theorem tryCaptures_answers (hBuild : (build pattern limits').value = .ok m)
    (hSteps : m.StepsFit text limits) (hCounts : m.CountsFit text) :
    ∃ found, m.tryCaptures text limits = .ok found := by
  obtain ⟨r, hProgram, hBranched, hNumbered⟩ := build_spec hBuild
  have hRegex : m.regex = r := by rw [regex, hProgram, Program.compile]
  rw [tryCaptures]
  rcases run_answers hProgram hBranched hSteps hCounts with ⟨e, hRun⟩ | hRun
  · simp only [hRun]
    exact ⟨_, rfl⟩
  · simp only [hRun, hRegex]
    cases hFound : (r.traces text.toList.toArray).head? with
    | none => exact ⟨_, rfl⟩
    | some t =>
      obtain ⟨entries, hEntries⟩ := resolve_answers hNumbered (List.mem_of_head? hFound)
      simp only [hEntries]
      exact ⟨_, rfl⟩

theorem isMatch_answers (hBuild : (build pattern limits').value = .ok m)
    (hSteps : m.StepsFit text m.limits) (hCounts : m.CountsFit text) :
    ∃ found, m.isMatch text = .ok found := by
  obtain ⟨⟨found, log⟩, hFound⟩ := tryIsMatch_answers hBuild hSteps hCounts
  rw [isMatch, hFound]
  cases found with
  | error e => exact ⟨_, rfl⟩
  | ok found => exact ⟨_, rfl⟩

theorem captures_answers (hBuild : (build pattern limits').value = .ok m)
    (hSteps : m.StepsFit text m.limits) (hCounts : m.CountsFit text) :
    ∃ found, m.captures text = .ok found := by
  obtain ⟨⟨found, log⟩, hFound⟩ := tryCaptures_answers hBuild hSteps hCounts
  rw [captures, hFound]
  cases found with
  | error e => exact ⟨_, rfl⟩
  | ok found => exact ⟨_, rfl⟩

theorem matchLength?_answers (hBuild : (build pattern limits').value = .ok m)
    (hSteps : m.StepsFit text m.limits) (hCounts : m.CountsFit text) :
    ∃ found, m.matchLength? text = .ok found := by
  obtain ⟨found, hFound⟩ := captures_answers hBuild hSteps hCounts
  rw [matchLength?, hFound]
  exact ⟨_, rfl⟩

/-- Every call of a matcher gives an answer, for every text, as long as the steps of its search and
the counts of its unbounded loops fit their words. -/
theorem answers (hBuild : (build pattern limits').value = .ok m) (text : String)
    (hCounts : m.CountsFit text) :
    (∀ limits, m.StepsFit text limits →
      (∃ found, m.tryCaptures text limits = .ok found) ∧
        ∃ found, m.tryIsMatch text limits = .ok found) ∧
    (m.StepsFit text m.limits →
      (∃ found, m.captures text = .ok found) ∧ (∃ found, m.isMatch text = .ok found) ∧
        ∃ found, m.matchLength? text = .ok found) := by
  constructor
  · intro limits hSteps
    exact ⟨tryCaptures_answers hBuild hSteps hCounts, tryIsMatch_answers hBuild hSteps hCounts⟩
  · intro hSteps
    exact ⟨captures_answers hBuild hSteps hCounts, isMatch_answers hBuild hSteps hCounts,
      matchLength?_answers hBuild hSteps hCounts⟩

theorem answers_starOfGroup :
    ∃ m : Matcher, (build "(a)*" (Limits.unlimited.withSteps 1000)).value = .ok m ∧
      m.CountsFit "aab" ∧ m.StepsFit "aab" (Limits.unlimited.withSteps 1000) ∧
      m.StepsFit "aab" m.limits ∧
      ((∀ limits, m.StepsFit "aab" limits →
        (∃ found, m.tryCaptures "aab" limits = .ok found) ∧
          ∃ found, m.tryIsMatch "aab" limits = .ok found) ∧
      (m.StepsFit "aab" m.limits →
        (∃ found, m.captures "aab" = .ok found) ∧ (∃ found, m.isMatch "aab" = .ok found) ∧
          ∃ found, m.matchLength? "aab" = .ok found)) := by
  have hQuantifiers : (parse "(a)*").toOption.map Regex.quantifiers =
      some [.zeroOrMore, .once] := by decide +kernel
  cases hParse : parse "(a)*" with
  | error e =>
    rw [hParse] at hQuantifiers
    cases hQuantifiers
  | ok r =>
    rw [hParse] at hQuantifiers
    obtain ⟨m, hBuild, hRegex, hLimits⟩ :
        ∃ m : Matcher, (build "(a)*" (Limits.unlimited.withSteps 1000)).value = .ok m ∧
          m.regex = r ∧ m.limits = Limits.unlimited.withSteps 1000 := by
      simp only [build, hParse]
      exact ⟨_, rfl, rfl, rfl⟩
    have hCounts : m.CountsFit "aab" := by
      rw [CountsFit, hRegex, Option.some.inj hQuantifiers]
      decide
    have hSteps : m.StepsFit "aab" (Limits.unlimited.withSteps 1000) :=
      stepsFit_of_limit rfl (by decide)
    exact ⟨m, hBuild, hCounts, hSteps, by rwa [hLimits], answers hBuild "aab" hCounts⟩

end Matcher

end BacktrackRegex
