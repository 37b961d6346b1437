import BacktrackRegex.Proofs.Language.Basic
import BacktrackRegex.Proofs.Search.Priority

/-!
# Traces are certificates

A trace says so much about a match that the match can be checked against the text without any
search.  The search itself keeps no trace.  What a run returns is put together afterwards from a
log of choices, by a replay that never looks at the text; it is a certificate all the same.

* `Regex.Certified` — the trace shows that the regex matches, and can be decided;
* `Regex.outcomes_certified` — for the outcomes of a regex at any place;
* `Regex.run_certified` — for the trace that a run returns.
-/

set_option autoImplicit false

namespace BacktrackRegex

/-! ## Certificates -/

/-- The spans follow one another from `start` to `stop` without gap or overlap. -/
def SpansFill (stop : Nat) : Nat → List Span → Prop
  | start, [] => start = stop
  | start, s :: spans => s.start = start ∧ SpansFill stop s.stop spans

instance decidableSpansFill (stop : Nat) : ∀ start spans, Decidable (SpansFill stop start spans)
  | _, [] => decEq _ _
  | _, s :: spans =>
    have := decidableSpansFill stop s.stop spans
    inferInstanceAs (Decidable (_ ∧ _))

/-- Iterations with these spans are legal: there are as many as the quantifier allows, and an empty
one is the last of them or still needed to reach the minimum. -/
structure Quantifier.Permits (q : Quantifier) (spans : List Span) : Prop where
  min_le : q.min.toNat ≤ spans.length
  le_max : ∀ max ∈ q.max, spans.length ≤ max.toNat
  empty : ∀ i, (hi : i < spans.length) → spans[i].len = 0 →
    i + 1 < q.min.toNat ∨ i + 1 = spans.length

/-- The maximum is looked at as an option: there are too many words to try them all. -/
instance (q : Quantifier) (spans : List Span) : Decidable (q.Permits spans) :=
  decidable_of_iff
    (q.min.toNat ≤ spans.length ∧ q.max.all (fun max => spans.length ≤ max.toNat) = true ∧
      ∀ i, (hi : i < spans.length) → spans[i].len = 0 →
        i + 1 < q.min.toNat ∨ i + 1 = spans.length) <| by
    simp only [Option.all_eq_true, decide_eq_true_eq]
    exact ⟨fun h => ⟨h.1, h.2.1, h.2.2⟩, fun h => ⟨h.min_le, h.le_max, h.empty⟩⟩

mutual

/-- The trace shows that the regex matches in the text.  A leaf takes a single character of the
text, which it accepts; a group covers what its body does; the branch of an alternation exists; the
repetitions of a sequence fill it, their iterations fill them and are permitted. -/
def Regex.Certified (text : Array Char) : Regex → Trace → Prop
  | .seq items, .seq span repetitions =>
    SpansFill span.stop span.start (repetitions.map Repetition.span) ∧
      ItemsCertified text items repetitions
  | .alt branches, .alt branch t => BranchCertified text branches branch t
  | .group _ body, .group span t => span = t.span ∧ body.Certified text t
  | .leaf set, .char span =>
    span.len = 1 ∧ ∃ c, text[span.start]? = some c ∧ set.accepts c = true
  | _, _ => False

/-- There is one repetition for each item, filled by permitted iterations of the item. -/
def ItemsCertified (text : Array Char) :
    List (Regex × Quantifier) → List (Repetition Trace) → Prop
  | [], [] => True
  | (r, q) :: items, repetition :: repetitions =>
    SpansFill repetition.span.stop repetition.span.start
        (repetition.iterations.map Trace.span) ∧
      q.Permits (repetition.iterations.map Trace.span) ∧
      (∀ t ∈ repetition.iterations, r.Certified text t) ∧ ItemsCertified text items repetitions
  | _, _ => False

/-- There is a branch of this number, and the trace shows that it matches. -/
def BranchCertified (text : Array Char) : List Regex → Nat → Trace → Prop
  | [], _, _ => False
  | r :: _, 0, t => r.Certified text t
  | _ :: branches, branch + 1, t => BranchCertified text branches branch t

end

mutual

/-- Whether a trace is a certificate can be decided by walking over it. -/
instance Regex.decidableCertified (text : Array Char) :
    ∀ (r : Regex) (t : Trace), Decidable (r.Certified text t)
  | .seq items, .seq _ repetitions =>
    have := decidableItemsCertified text items repetitions
    inferInstanceAs (Decidable (_ ∧ _))
  | .alt branches, .alt branch t => decidableBranchCertified text branches branch t
  | .group _ body, .group _ t =>
    have := Regex.decidableCertified text body t
    inferInstanceAs (Decidable (_ ∧ _))
  | .leaf set, .char span =>
    decidable_of_iff (span.len = 1 ∧ text[span.start]?.any set.accepts = true) <| by
      simp [Regex.Certified, Option.any_eq_true]
  | .seq _, .char _ | .seq _, .group _ _ | .seq _, .alt _ _ => .isFalse id
  | .alt _, .char _ | .alt _, .group _ _ | .alt _, .seq _ _ => .isFalse id
  | .group _ _, .char _ | .group _ _, .seq _ _ | .group _ _, .alt _ _ => .isFalse id
  | .leaf _, .group _ _ | .leaf _, .seq _ _ | .leaf _, .alt _ _ => .isFalse id

instance decidableItemsCertified (text : Array Char) :
    ∀ (items : List (Regex × Quantifier)) (repetitions : List (Repetition Trace)),
      Decidable (ItemsCertified text items repetitions)
  | [], [] => .isTrue trivial
  | (r, _) :: items, repetition :: repetitions =>
    have := Regex.decidableCertified text r
    have := decidableItemsCertified text items repetitions
    inferInstanceAs (Decidable (_ ∧ _ ∧ (∀ t ∈ repetition.iterations, _) ∧ _))
  | [], _ :: _ | _ :: _, [] => .isFalse id

instance decidableBranchCertified (text : Array Char) :
    ∀ (branches : List Regex) (branch : Nat) (t : Trace),
      Decidable (BranchCertified text branches branch t)
  | [], _, _ => .isFalse id
  | r :: _, 0, t => Regex.decidableCertified text r t
  | _ :: branches, branch + 1, t => decidableBranchCertified text branches branch t

end

/-! ## Outcomes -/

theorem TilesTo.spansFill {P : Trace → Prop} {stop pos : Nat} {ts : List Trace}
    (h : TilesTo (fun pos t => P t ∧ t.span.start = pos) stop pos ts) :
    SpansFill stop pos (ts.map Trace.span) := by
  induction ts generalizing pos with
  | nil => exact h
  | cons t ts ih => exact ⟨h.1.2, ih h.2⟩

/-- What a quantifier permits, seen from where `count` iterations are done already. -/
theorem Outcomes.iterations_permitted {size : Nat} {body : Outcomes size Trace}
    {tiled : Nat → Trace → Prop} (hBody : ∀ pos, ∀ o ∈ body.run pos, o.Records tiled pos)
    {q : Quantifier} {count pos : Nat} {o : Outcome (List Trace)}
    (h : o ∈ body.iterations q count pos) :
    q.min.toNat ≤ count + o.value.length ∧
      (∀ max ∈ q.max, count ≤ max.toNat → count + o.value.length ≤ max.toNat) ∧
      ∀ i, (hi : i < o.value.length) → o.value[i].span.len = 0 →
        count + i + 1 < q.min.toNat ∨ i + 1 = o.value.length := by
  fun_induction iterations body q count pos generalizing o with
  | case1 count pos ih =>
    rcases List.mem_append.1 h with hMore | hStop
    · split at hMore
      · rename_i hAllowed
        rw [Quantifier.allowsMore_iff] at hAllowed
        obtain ⟨first, hFirst, hRest⟩ := List.mem_flatMap.1 hMore
        have hRecords := hBody pos first hFirst
        split at hRest
        · rename_i hLast
          rw [List.mem_singleton] at hRest
          subst hRest
          refine ⟨Quantifier.allowsStop_iff.1 hLast.2, fun max hMax _ => hAllowed max hMax, ?_⟩
          intro i hi _
          exact .inr (Nat.le_antisymm hi (Nat.succ_le_succ (Nat.zero_le i)))
        · rename_i hGoesOn
          obtain ⟨later, hLater, rfl⟩ := List.mem_map.1 hRest
          obtain ⟨hMin, hMax, hEmpty⟩ := ih first hFirst hGoesOn hLater
          simp only [Outcome.map, List.length_cons]
          refine ⟨by omega, fun max hBound _ => ?_, fun i hi hLen => ?_⟩
          · have := hMax max hBound (hAllowed max hBound)
            omega
          · cases i with
            | zero =>
              -- The first iteration was empty and the repetition went on, so the minimum was ahead.
              have hStart := hRecords.start
              have hStop := hRecords.stop
              have hLen : first.value.span.len = 0 := hLen
              rw [Span.stop] at hStop
              rw [Quantifier.allowsStop_iff] at hGoesOn
              omega
            | succ i =>
              have := hEmpty i (Nat.lt_of_succ_lt_succ hi) hLen
              omega
      · cases hMore
    · split at hStop
      · rename_i hAllowed
        rw [List.mem_singleton] at hStop
        subst hStop
        exact ⟨Quantifier.allowsStop_iff.1 hAllowed, fun _ _ h => h,
          fun i hi => absurd hi (by simp)⟩
      · cases hStop

theorem Outcomes.iterations_permits {size : Nat} {body : Outcomes size Trace}
    {tiled : Nat → Trace → Prop} (hBody : ∀ pos, ∀ o ∈ body.run pos, o.Records tiled pos)
    {q : Quantifier} {pos : Nat} {o : Outcome (List Trace)} (h : o ∈ body.iterations q 0 pos) :
    q.Permits (o.value.map Trace.span) := by
  obtain ⟨hMin, hMax, hEmpty⟩ := iterations_permitted hBody h
  simp only [Nat.zero_add] at hMin hMax hEmpty
  constructor
  · simpa using hMin
  · simpa using hMax
  · simpa using hEmpty

mutual

/-- The outcomes of a regex are certificates. -/
theorem Regex.outcomes_certified (text : Array Char) : ∀ (r : Regex) (pos : Nat),
    ∀ o ∈ (r.outcomes text).run pos, r.Certified text o.value
  | .seq items, pos, o, h => by
    obtain ⟨o, hMem, rfl⟩ := List.mem_map.1 h
    obtain ⟨hFill, hItems⟩ := itemsOutcomes_certified text items pos o hMem
    have hStop := Span.stop_sub ((itemsOutcomes text items).inText hMem).1
    refine ⟨?_, hItems⟩
    rwa [hStop]
  | .alt branches, pos, o, h => by
    obtain ⟨branch, t, hValue, hCertified⟩ := branchesOutcomes_certified text branches 0 pos o h
    rw [hValue, Nat.zero_add]
    exact hCertified
  | .group _ body, pos, o, h => by
    obtain ⟨o, hMem, rfl⟩ := List.mem_map.1 h
    exact ⟨rfl, Regex.outcomes_certified text body pos o hMem⟩
  | .leaf set, pos, o, h => by
    change o ∈ (if text[pos]?.any set.accepts then _ else _) at h
    split at h
    · rename_i hAccepts
      rw [List.mem_singleton] at h
      subst h
      exact ⟨rfl, (Option.any_eq_true _ _).1 hAccepts⟩
    · cases h

theorem itemsOutcomes_certified (text : Array Char) :
    ∀ (items : List (Regex × Quantifier)) (pos : Nat),
    ∀ o ∈ (itemsOutcomes text items).run pos,
      SpansFill o.stop pos (o.value.map Repetition.span) ∧ ItemsCertified text items o.value
  | [], pos, o, h => by
    rw [itemsOutcomes] at h
    rw [List.mem_singleton.1 h]
    exact ⟨rfl, trivial⟩
  | (r, q) :: items, pos, o, h => by
    obtain ⟨first, hFirst, hRest⟩ := List.mem_flatMap.1 h
    obtain ⟨later, hLater, rfl⟩ := List.mem_map.1 hRest
    obtain ⟨its, hIts, rfl⟩ := List.mem_map.1 hFirst
    have hStop := Span.stop_sub (Outcomes.iterations_inText hIts).1
    have hRecords : ∀ pos, ∀ o ∈ (r.outcomes text).run pos,
        o.Records (fun pos t => r.Certified text t ∧ t.span.start = pos) pos := by
      intro pos o hMem
      obtain ⟨-, hStart, hStop⟩ := Regex.outcomes_tiled text r pos o hMem
      exact ⟨⟨Regex.outcomes_certified text r pos o hMem, hStart⟩, hStart, hStop⟩
    have hTiles := Outcomes.iterations_tile hRecords hIts
    obtain ⟨hFill, hItems⟩ := itemsOutcomes_certified text items its.stop later hLater
    refine ⟨⟨rfl, ?_⟩, ?_, Outcomes.iterations_permits hRecords hIts,
      hTiles.forall_mem fun _ _ h => h.1, hItems⟩
    · rwa [hStop]
    · rw [hStop]
      exact hTiles.spansFill

theorem branchesOutcomes_certified (text : Array Char) :
    ∀ (branches : List Regex) (branch pos : Nat),
    ∀ o ∈ (branchesOutcomes text branch branches).run pos, ∃ i t,
      o.value = .alt (branch + i) t ∧ BranchCertified text branches i t
  | [], _, _, o, h => by cases h
  | r :: branches, branch, pos, o, h => by
    rcases List.mem_append.1 h with hFirst | hLater
    · obtain ⟨o, hMem, rfl⟩ := List.mem_map.1 hFirst
      exact ⟨0, o.value, rfl, Regex.outcomes_certified text r pos o hMem⟩
    · obtain ⟨i, t, hValue, hCertified⟩ :=
        branchesOutcomes_certified text branches (branch + 1) pos o hLater
      refine ⟨i + 1, t, ?_, hCertified⟩
      rw [hValue, Nat.add_assoc, Nat.add_comm 1 i]

end

/-! ## Runs -/

/-- The trace that a run returns, whatever its limits are, begins at the start of the text and is a
certificate of the match. -/
theorem Regex.run_certified {r : Regex} (hBranched : r.Branched) {text : Array Char}
    {limits : Limits} {t : Trace} (hRun : r.run text limits = .ok (.ok (some t))) :
    t.span.start = 0 ∧ r.Certified text t := by
  have hMem := mem_traces_of_run hBranched hRun
  obtain ⟨-, hStart, -⟩ := tiled_of_mem_traces hMem
  obtain ⟨o, hOutcome, rfl⟩ := List.mem_map.1 hMem
  exact ⟨hStart, r.outcomes_certified text 0 o hOutcome⟩

/-- The match of `(?:a*){2,3}` in `aab` has an empty second iteration, which the minimum asks
for. -/
theorem Regex.run_certified_doubledStar :
    doubledStar.Branched ∧
      ∃ t, doubledStar.run #['a', 'a', 'b'] .unlimited = .ok (.ok (some t)) ∧
        t.span = ⟨0, 2⟩ ∧ t.span.start = 0 ∧ doubledStar.Certified #['a', 'a', 'b'] t := by
  obtain ⟨t, hRun, hSpan⟩ := exists_run_doubledStar
  exact ⟨branched_doubledStar, t, hRun, hSpan, run_certified branched_doubledStar hRun⟩

/-- A third iteration, empty as well, would not be permitted. -/
example : ¬ Regex.doubledStar.Certified #['a', 'a', 'b']
    (.seq ⟨0, 2⟩ [⟨⟨0, 2⟩, [.seq ⟨0, 2⟩ [⟨⟨0, 2⟩, [.char ⟨0, 1⟩, .char ⟨1, 1⟩]⟩],
      .seq ⟨2, 0⟩ [⟨⟨2, 0⟩, []⟩], .seq ⟨2, 0⟩ [⟨⟨2, 0⟩, []⟩]]⟩]) := by
  decide +kernel

end BacktrackRegex
