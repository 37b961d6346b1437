import BacktrackRegex.Proofs.Search.Exploration
import BacktrackRegex.Proofs.Trace.Decoding
import BacktrackRegex.Proofs.Trace.Tiling

/-!
# A run finds the best trace

Run on the program of a regex, the machine gives the first of the traces that the regex has in the
text, and no match if there is none.  Nothing but a limit, or a number that does not fit its word,
can keep it from that.

* `Regex.run_cases`, `Regex.mem_traces_of_run` — a run within any limits;
* `Regex.run_eq_head_traces` — a run without limits.
-/

set_option autoImplicit false

namespace BacktrackRegex

variable {text : Array Char} {limits : Limits}

/-- The start of a search becomes one thread at `accept` for each outcome of the regex. -/
theorem Program.becomes_outcomes (r : Regex) (hBranched : r.Branched) (text : Array Char) :
    (compile r).Becomes text
      (fun o u => (Thread.initial r.slotCount).Arrives r.codeSize 0 r.slotCount o.value.choices
        o.stop u)
      ((r.outcomes text).run 0) [.initial (compile r).slots] := by
  have hSize : (Thread.initial r.slotCount).counters.size = r.slotCount := Array.size_replicate
  have hExplores : (compile r).Explores text (0 + r.codeSize) 0 (0 + r.slotCount) Trace.choices
      ((r.outcomes text).run 0) (.initial r.slotCount) :=
    Regex.explores_outcomes r hBranched 0 0 (hasCode_compile r) _ rfl
      (Nat.le_of_eq (by rw [hSize, Nat.zero_add]))
  rw [Nat.zero_add, Nat.zero_add] at hExplores
  exact hExplores

theorem Program.accepts_of_pc (r : Regex) {t : Thread} (hPc : t.pc = r.codeSize) :
    (compile r).Accepts t := by
  rw [Accepts, hPc]
  exact accept_compile r

/-- Threads that have gone the ways of some outcomes have all come to `accept`. -/
theorem Program.accepts_of_outcomes (r : Regex) {os : List (Outcome Trace)} {us : List Thread}
    (h : List.Forall₂ (fun o u => (Thread.initial r.slotCount).Arrives r.codeSize 0
      r.slotCount o.value.choices o.stop u) os us) : ∀ u ∈ us, (compile r).Accepts u := by
  have hEach : List.Forall₂ (fun u _ => (compile r).Accepts u ∧ True) us os :=
    (h.imp fun _ u hArrives => ⟨accepts_of_pc r hArrives.pc, trivial⟩).flip
  exact ((List.forall₂_and_left us _).1 hEach).1

/-- The log of a thread that has gone the way of an outcome is read as the trace of the outcome. -/
theorem Program.replay_outcome (r : Regex) {o : Outcome Trace}
    (hMem : o ∈ (r.outcomes text).run 0) {exit lo hi slots : Nat} {s : State}
    (h : (Thread.initial slots).Arrives exit lo hi o.value.choices o.stop s.thread)
    (hFits : s.pos < offsetCapacity) : (compile r).replay s = .ok o.value := by
  have hRecords := Regex.outcomes_tiled text r 0 o hMem
  have hChoices : s.choices.toList = o.value.choices := h.choices
  have hPos : s.pos = o.value.span.stop := h.pos.trans hRecords.stop.symm
  rw [hPos] at hFits
  have hRead := Regex.replayer_choices r 0 o.value hRecords.tiled (hRecords.tiled.endsFit hFits) []
  rw [List.append_nil, ← hChoices] at hRead
  have hRegex : (compile r).regex = r := rfl
  rw [replay, hRegex, hRead]
  simp only [Span.checkedStop_of_lt hFits, hPos, List.isEmpty_nil, and_self, if_true]

/-- A search that decides for the first outcome makes a run that gives its trace. -/
theorem Program.run_of_decides (r : Regex) {us : List Thread}
    (hOutcomes : List.Forall₂ (fun o u => (Thread.initial r.slotCount).Arrives r.codeSize 0
      r.slotCount o.value.choices o.stop u) ((r.outcomes text).run 0) us)
    (hDecides : Decides us ((compile r).search text limits)) :
    r.run text limits = .ok (.ok (r.traces text).head?) := by
  rw [Regex.run, run, Regex.traces]
  have hFits : ∀ s, (compile r).search text limits = .matched s → s.pos < offsetCapacity :=
    fun _ => pos_lt_of_search_matched
  generalize (compile r).search text limits = ending at hDecides hFits ⊢
  cases hDecides with
  | @matched s ts =>
    generalize hRun : (r.outcomes text).run 0 = os at hOutcomes ⊢
    cases hOutcomes with
    | @cons o _ os _ hArrives _ =>
      have hMem : o ∈ (r.outcomes text).run 0 := by
        rw [hRun]
        exact List.mem_cons_self
      simp only [replay_outcome r hMem hArrives (hFits s rfl), List.map_cons, List.head?_cons]
  | failed =>
    rw [List.forall₂_nil_right_iff.1 hOutcomes]
    rfl

/-- Within any limits a run gives the first trace, or no match if there is none; else it ends at a
limit or with a number that does not fit its word. -/
theorem Regex.run_cases (r : Regex) (hBranched : r.Branched) (text : Array Char)
    (limits : Limits) :
    r.run text limits = .ok (.ok (r.traces text).head?) ∨
      (∃ e, (Program.compile r).search text limits = .exhausted e ∧
        r.run text limits = .ok (.error e)) ∨
      ∃ f, (Program.compile r).Overflows text limits f ∧ r.run text limits = .error f := by
  obtain ⟨us, hExpands, hOutcomes⟩ := Program.becomes_outcomes r hBranched text
  have hAll := Program.accepts_of_outcomes r hOutcomes
  rcases Program.search_of_expands hExpands hAll limits with
    hDecides | ⟨e, hSearch⟩ | ⟨f, hFull, hSearch⟩
  · exact .inl (Program.run_of_decides r hOutcomes hDecides)
  · exact .inr (.inl ⟨e, hSearch, by rw [Regex.run, Program.run, hSearch]⟩)
  · exact .inr (.inr ⟨f, hFull, by rw [Regex.run, Program.run, hSearch]⟩)

/-- Where every number fits its word, a run ends at a limit or gives the first trace. -/
theorem Regex.run_of_not_overflows (r : Regex) (hBranched : r.Branched)
    (hFits : ∀ f, ¬ (Program.compile r).Overflows text limits f) :
    (∃ e, r.run text limits = .ok (.error e)) ∨
      r.run text limits = .ok (.ok (r.traces text).head?) := by
  rcases r.run_cases hBranched text limits with hRun | ⟨e, -, hRun⟩ | ⟨f, hFull, -⟩
  · exact .inr hRun
  · exact .inl ⟨e, hRun⟩
  · exact absurd hFull (hFits f)

/-- What a run finds is one of the traces of the regex, whatever its limits are. -/
theorem Regex.mem_traces_of_run {r : Regex} (hBranched : r.Branched) {t : Trace}
    (h : r.run text limits = .ok (.ok (some t))) : t ∈ r.traces text := by
  rcases r.run_cases hBranched text limits with hRun | ⟨e, -, hRun⟩ | ⟨f, -, hRun⟩
  · rw [hRun] at h
    simp only [Except.ok.injEq] at h
    exact List.mem_of_head? h
  · rw [hRun] at h
    cases h
  · rw [hRun] at h
    cases h

/-- Without limits only a number that does not fit its word keeps a run from an answer, and the
answer is the first trace, or no match if there is none. -/
theorem Regex.run_eq_head_traces (r : Regex) (hBranched : r.Branched) (text : Array Char) :
    r.run text .unlimited = .ok (.ok (r.traces text).head?) ∨
      ∃ f, (Program.compile r).Overflows text .unlimited f ∧ r.run text .unlimited = .error f := by
  rcases r.run_cases hBranched text .unlimited with hFound | ⟨e, hSearch, -⟩ | hFull
  · exact .inl hFound
  · exact absurd hSearch (Program.search_unlimited_ne_exhausted _ text e)
  · exact .inr hFull

/-- The pattern `(?:a*){2,3}`.  Its second iteration has to be empty, since the first one has taken
all there is. -/
def Regex.doubledStar : Regex := .seq [(.seq [(.leaf (.only 'a'), .zeroOrMore)], ⟨2, some 3⟩)]

theorem Regex.branched_doubledStar : Regex.doubledStar.Branched := ⟨⟨trivial, trivial⟩, trivial⟩

/-- The run on `aab` takes two characters. -/
theorem Regex.exists_run_doubledStar :
    ∃ t, doubledStar.run #['a', 'a', 'b'] .unlimited = .ok (.ok (some t)) ∧ t.span = ⟨0, 2⟩ := by
  have hComputed : ((doubledStar.run #['a', 'a', 'b'] .unlimited).toOption.bind
      Except.toOption).join.map Trace.span = some ⟨0, 2⟩ := by
    decide +kernel
  simp only [Option.map_eq_some_iff, Option.join_eq_some_iff, Option.bind_eq_some_iff,
    toOption_eq_some_iff] at hComputed
  obtain ⟨t, ⟨answer, hRun, rfl⟩, hSpan⟩ := hComputed
  exact ⟨t, hRun, hSpan⟩

/-- What the run on `aab` gives is the first of the traces there. -/
theorem Regex.run_doubledStar :
    doubledStar.Branched ∧
      ∃ t, doubledStar.run #['a', 'a', 'b'] .unlimited = .ok (.ok (some t)) ∧
        t.span = ⟨0, 2⟩ ∧ (doubledStar.traces #['a', 'a', 'b']).head? = some t := by
  obtain ⟨t, hRun, hSpan⟩ := exists_run_doubledStar
  refine ⟨branched_doubledStar, t, hRun, hSpan, ?_⟩
  rcases run_eq_head_traces doubledStar branched_doubledStar #['a', 'a', 'b'] with
    hFound | ⟨f, -, hFault⟩
  · rw [hRun, Except.ok.injEq, Except.ok.injEq] at hFound
    exact hFound.symm
  · rw [hRun] at hFault
    cases hFault

end BacktrackRegex
