import BacktrackRegex.Proofs.Language.Recognition
import BacktrackRegex.Proofs.Search.Priority

/-!
# Searching decides the language

A run without limits finds a match exactly if the text starts with a word of the language, and what
it finds is such a word.  So leaving a repetition at an empty iteration never loses a match.

* `Regex.run_iff_language` — the answer of a run, in terms of the language.
-/

set_option autoImplicit false

namespace BacktrackRegex

/-- There is a trace exactly if the text starts with a word of the language. -/
theorem Regex.traces_ne_nil_iff (r : Regex) (text : Array Char) :
    r.traces text ≠ [] ↔ ∃ w ∈ r.language, w <+: text.toList := by
  have hRecognises := Regex.outcomes_recognise text r 0
  rw [traces, ne_eq, List.map_eq_nil_iff]
  constructor
  · intro hSome
    obtain ⟨o, hMem⟩ := List.exists_mem_of_ne_nil _ hSome
    obtain ⟨w, hWord, hReads, -⟩ := (hRecognises o.stop).1 ⟨o, hMem, rfl⟩
    exact ⟨w, hWord, hReads⟩
  · rintro ⟨w, hWord, hReads⟩
    obtain ⟨o, hMem, -⟩ := (hRecognises _).2 ⟨w, hWord, hReads, rfl⟩
    exact List.ne_nil_of_mem hMem

/-- What a trace covers is a word of the language. -/
theorem Regex.take_mem_language (r : Regex) {text : Array Char} {t : Trace}
    (h : t ∈ r.traces text) :
    t.span.len ≤ text.size ∧ text.toList.take t.span.len ∈ r.language := by
  obtain ⟨o, hMem, rfl⟩ := List.mem_map.1 h
  have hRecords := Regex.outcomes_tiled text r 0 o hMem
  obtain ⟨w, hWord, hReads, hStop⟩ := (Regex.outcomes_recognise text r 0 o.stop).1 ⟨o, hMem, rfl⟩
  have hLen : o.value.span.len = w.length := by
    have hSpan := hRecords.stop
    rw [Span.stop, hRecords.start] at hSpan
    omega
  have hPrefix : w <+: text.toList := hReads
  rw [hLen]
  refine ⟨hPrefix.length_le, ?_⟩
  rwa [← List.prefix_iff_eq_take.1 hPrefix]

/-- Without limits only a number that does not fit its word keeps a run from an answer.  It is a
match exactly if the text starts with a word of the language, and the match is such a word. -/
theorem Regex.run_iff_language (r : Regex) (hBranched : r.Branched) (text : Array Char) :
    (∃ found, r.run text .unlimited = .ok (.ok found) ∧
      (found.isSome ↔ ∃ w ∈ r.language, w <+: text.toList) ∧
      ∀ t, found = some t →
        t.span.len ≤ text.size ∧ text.toList.take t.span.len ∈ r.language) ∨
      ∃ f, (Program.compile r).Overflows text .unlimited f ∧ r.run text .unlimited = .error f := by
  rcases r.run_cases hBranched text .unlimited with hFound | ⟨e, hSearch, -⟩ | hFull
  · refine .inl ⟨_, hFound, ?_, fun t ht => r.take_mem_language (List.mem_of_head? ht)⟩
    rw [List.isSome_head?, ← r.traces_ne_nil_iff text]
  · exact absurd hSearch (Program.search_unlimited_ne_exhausted _ text e)
  · exact .inr hFull

/-- The run on `aab` finds the word `aa`. -/
theorem Regex.run_doubledStar_iff_language :
    doubledStar.Branched ∧
      ∃ t, doubledStar.run #['a', 'a', 'b'] .unlimited = .ok (.ok (some t)) ∧ t.span = ⟨0, 2⟩ ∧
        (∃ w ∈ doubledStar.language, w <+: ['a', 'a', 'b']) ∧
        ['a', 'a'] ∈ doubledStar.language := by
  obtain ⟨t, hRun, hSpan⟩ := exists_run_doubledStar
  refine ⟨branched_doubledStar, t, hRun, hSpan, ?_⟩
  rcases run_iff_language doubledStar branched_doubledStar #['a', 'a', 'b'] with
    ⟨found, hFound, hIff, hWord⟩ | ⟨f, -, hFault⟩
  · rw [hRun, Except.ok.injEq, Except.ok.injEq] at hFound
    subst hFound
    have hTaken := (hWord t rfl).2
    rw [hSpan] at hTaken
    exact ⟨hIff.1 rfl, hTaken⟩
  · rw [hRun] at hFault
    cases hFault

end BacktrackRegex
