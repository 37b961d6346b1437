import BacktrackRegex.Proofs.Matcher.Totality

/-!
# All calls tell one story

A matcher has five calls over one search.  Two of them take their limits and report a search that
was given up; the others use the limits that the matcher was built with, and count such a search as
no match.  Some go on to collect the captures, some do not.  They agree in what they answer and in
what they write to the log.

* `Captures.Complete` — a capture list of the right length, without absent entries;
* `Matcher.Concludes` — what a search comes to, as both calls with limits of their own tell it;
* `Matcher.TriesAgree`, `Matcher.CallsAgree` — how the calls agree;
* `Matcher.calls_agree` — for every matcher, text and limits.
-/

set_option autoImplicit false

namespace BacktrackRegex

/-! ## Capture lists -/

namespace Captures

/-- The list holds the whole match and after it at most one entry for each group, all of them
present.  So exactly the places in the list can be asked for. -/
structure Complete (c : Captures) (groupCount : Nat) : Prop where
  size_pos : 1 ≤ c.size
  size_le : c.size ≤ groupCount + 1
  present : ∀ entry ∈ c.entries, entry ≠ none
  get?_isSome_iff : ∀ i, (c.get? i).isSome = true ↔ i < c.size
  index_faults_iff : ∀ i, (∃ f, c.index i = .error f) ↔ c.size ≤ i

variable {c : Captures} {groupCount : Nat}

theorem get?_isSome_iff_of_present (h : ∀ entry ∈ c.entries, entry ≠ none) (i : Nat) :
    (c.get? i).isSome = true ↔ i < c.size := by
  unfold get? size
  rcases Nat.lt_or_ge i c.entries.length with hLt | hGe
  · have hEntry := h _ (List.getElem_mem hLt)
    simp [hLt, Option.isSome_iff_ne_none, hEntry]
  · simp [hGe]

theorem index_faults_iff_of_present (h : ∀ entry ∈ c.entries, entry ≠ none) (i : Nat) :
    (∃ f, c.index i = .error f) ↔ c.size ≤ i := by
  have hSome := get?_isSome_iff_of_present h i
  unfold index
  cases hGet : c.get? i with
  | none =>
    rw [hGet] at hSome
    simp only [Option.isSome_none, Bool.false_eq_true, false_iff, Nat.not_lt] at hSome
    simp [hSome]
  | some text =>
    rw [hGet] at hSome
    simp only [Option.isSome_some, true_iff] at hSome
    simp [hSome]

theorem complete_of_present (hPos : 1 ≤ c.size) (hLe : c.size ≤ groupCount + 1)
    (hPresent : ∀ entry ∈ c.entries, entry ≠ none) : c.Complete groupCount where
  size_pos := hPos
  size_le := hLe
  present := hPresent
  get?_isSome_iff := get?_isSome_iff_of_present hPresent
  index_faults_iff := index_faults_iff_of_present hPresent

end Captures

/-- The captures of a match are complete, and the text begins with the whole match. -/
theorem Regex.resolve_trace {r : Regex} (hNumbered : r.NumberedFrom 1) {text : String} {t : Trace}
    (h : t ∈ r.traces text.toList.toArray) :
    ∃ c : Captures, resolve r t text.toList.toArray = .ok c.entries ∧ c.Complete r.groupCount ∧
      ∃ rest, text = c.whole ++ rest := by
  obtain ⟨hFits, hWithin⟩ := fits_within_of_mem_traces h
  obtain ⟨-, hStart, -⟩ := tiled_of_mem_traces h
  obtain ⟨spans, hOk, hLength, hLists⟩ := r.groupSpans_spec 1 t hNumbered hFits
  have hResolve := resolve_eq_trim hOk hLength hLists hWithin
  obtain ⟨hPos, hLe, hWhole, hPresent⟩ :=
    trim_some_cons (t.span.text text.toList.toArray) (spanTexts text.toList.toArray spans)
  have hGroups : (spanTexts text.toList.toArray spans).length = r.groupCount := by
    rw [spanTexts, List.length_map, hLength]
  rw [hGroups] at hLe
  generalize trim _ = entries at hResolve hPos hLe hWhole hPresent
  have hText : (Captures.mk entries).whole = String.ofList (text.toList.take t.span.len) := by
    simp [Captures.whole, Captures.get?, hWhole, Span.text, hStart]
  refine ⟨⟨entries⟩, hResolve, Captures.complete_of_present hPos hLe hPresent,
    String.ofList (text.toList.drop t.span.len), ?_⟩
  rw [hText, ← String.ofList_append, List.take_append_drop, String.ofList_toList]

namespace Matcher

/-! ## One search -/

/-- No number of a search within the limits leaves its word. -/
def NumbersFit (m : Matcher) (text : String) (limits : Limits) : Prop :=
  ∀ f, ¬ m.program.Overflows text.toList.toArray limits f

/-- What a search within the limits comes to, and how the two calls that take limits report it. -/
inductive Concludes (m : Matcher) (text : String) (limits : Limits) :
    Except Exhaustion (Option Captures) → Prop
  /-- It is given up at a limit. -/
  | exhausted {e : Exhaustion} (hCaptures : m.tryCaptures text limits = .ok ⟨.error e, []⟩)
    (hMatch : m.tryIsMatch text limits = .ok ⟨.error e, []⟩) : Concludes m text limits (.error e)
  /-- It finds no match. -/
  | mismatched
    (hCaptures : m.tryCaptures text limits = .ok ⟨.ok none, [mismatchRecord m.pattern text]⟩)
    (hMatch : m.tryIsMatch text limits = .ok ⟨.ok false, []⟩) :
    Concludes m text limits (.ok none)
  /-- It finds a match at the start of the text. -/
  | matched {c : Captures} {rest : String} (hCaptures : m.tryCaptures text limits =
      .ok ⟨.ok (some c), [matchRecord m.pattern text c.entries]⟩)
    (hMatch : m.tryIsMatch text limits = .ok ⟨.ok true, []⟩)
    (hComplete : c.Complete m.groupCount) (hText : text = c.whole ++ rest) :
    Concludes m text limits (.ok (some c))

variable {m : Matcher} {pattern text : String} {built limits : Limits}

/-- The matcher counts the groups of its regex, and keeps the limits it was built with. -/
theorem build_fields (h : (build pattern built).value = .ok m) :
    m.groupCount = m.regex.groupCount ∧ m.limits = built := by
  unfold build at h
  split at h
  · cases h
  · cases h
    exact ⟨rfl, rfl⟩

theorem exists_concludes (hBuild : (build pattern built).value = .ok m)
    (hFits : m.NumbersFit text limits) : ∃ answer, m.Concludes text limits answer := by
  obtain ⟨r, hProgram, hBranched, hNumbered⟩ := build_spec hBuild
  obtain ⟨hCount, -⟩ := build_fields hBuild
  have hRegex : m.regex = r := by rw [regex, hProgram, Program.compile]
  rw [hRegex] at hCount
  have hRun : (∃ e, m.program.run text.toList.toArray limits = .ok (.error e)) ∨
      m.program.run text.toList.toArray limits =
        .ok (.ok (r.traces text.toList.toArray).head?) := by
    rw [NumbersFit, hProgram] at hFits
    rw [hProgram]
    exact r.run_of_not_overflows hBranched hFits
  rcases hRun with ⟨e, hRun⟩ | hRun
  · exact ⟨.error e, .exhausted (by simp [tryCaptures, hRun]) (by simp [tryIsMatch, hRun])⟩
  · cases hFound : (r.traces text.toList.toArray).head? with
    | none =>
      rw [hFound] at hRun
      exact ⟨.ok none, .mismatched (by simp [tryCaptures, hRun]) (by simp [tryIsMatch, hRun])⟩
    | some t =>
      rw [hFound] at hRun
      obtain ⟨c, hResolve, hComplete, rest, hText⟩ :=
        Regex.resolve_trace hNumbered (List.mem_of_head? hFound)
      refine ⟨.ok (some c), .matched ?_ (by simp [tryIsMatch, hRun]) (hCount ▸ hComplete) hText⟩
      simp [tryCaptures, hRun, hRegex, hResolve]

/-! ## The calls over it -/

/-- What the two calls that take limits say of one search: `tried` with captures, `decided`
without. -/
structure TriesAgree (m : Matcher) (tried : Logged (Except Exhaustion (Option Captures)))
    (decided : Logged (Except Exhaustion Bool)) : Prop where
  error_iff : ∀ e, decided.value = .error e ↔ tried.value = .error e
  true_iff : decided.value = .ok true ↔ ∃ c, tried.value = .ok (some c)
  complete : ∀ c, tried.value = .ok (some c) → c.Complete m.groupCount
  tried_log : ∀ record ∈ tried.log, record.level ≠ .warn
  decided_log : ∀ record ∈ decided.log, record.level ≠ .warn

/-- What the three plain calls say of the search of which `tried` is the full report.  The length
of the match ends at a character boundary of the text, and the bytes up to there are the match. -/
structure CallsAgree (m : Matcher) (text : String)
    (tried : Logged (Except Exhaustion (Option Captures))) (found : Logged (Option Captures))
    (matched : Logged Bool) (length : Logged (Option Nat)) : Prop where
  found_iff : ∀ c, found.value = some c ↔ tried.value = .ok (some c)
  matched_iff : matched.value = true ↔ ∃ c, found.value = some c
  length_iff : (∃ b, length.value = some b) ↔ ∃ c, found.value = some c
  length_spec : ∀ b c, length.value = some b → found.value = some c →
    (String.Pos.Raw.mk b).IsValid text ∧ text.toByteArray.extract 0 b = c.whole.toByteArray
  complete : ∀ c, found.value = some c → c.Complete m.groupCount
  log_of_decided : ∀ found?, tried.value = .ok found? →
    found.log.map LogRecord.level = [.trace] ∧ length.log.map LogRecord.level = [.trace] ∧
      matched.log = []
  log_of_exhausted : ∀ e, tried.value = .error e →
    found.log.map LogRecord.level = [.warn] ∧ length.log.map LogRecord.level = [.warn] ∧
      matched.log.map LogRecord.level = [.warn]

theorem Concludes.triesAgree {answer : Except Exhaustion (Option Captures)}
    (h : m.Concludes text limits answer) :
    ∃ tried decided, m.tryCaptures text limits = .ok tried ∧
      m.tryIsMatch text limits = .ok decided ∧ m.TriesAgree tried decided := by
  cases h with
  | exhausted hCaptures hMatch =>
    refine ⟨_, _, hCaptures, hMatch, ?_⟩
    constructor <;> simp
  | mismatched hCaptures hMatch =>
    refine ⟨_, _, hCaptures, hMatch, ?_⟩
    constructor <;> simp [mismatchRecord]
  | matched hCaptures hMatch hComplete _ =>
    refine ⟨_, _, hCaptures, hMatch, ?_⟩
    constructor <;> simp [matchRecord, hComplete]

/-- A text that begins with another one has a character boundary behind it. -/
theorem isValid_utf8ByteSize_append (whole rest : String) :
    (String.Pos.Raw.mk whole.utf8ByteSize).IsValid (whole ++ rest) ∧
      (whole ++ rest).toByteArray.extract 0 whole.utf8ByteSize = whole.toByteArray := by
  constructor
  · exact String.Pos.Raw.isValid_iff_exists_append.2 ⟨whole, rest, rfl, rfl⟩
  · rw [String.toByteArray_append]
    exact ByteArray.extract_append_eq_left String.size_toByteArray.symm

theorem Concludes.callsAgree {answer : Except Exhaustion (Option Captures)}
    (h : m.Concludes text m.limits answer) :
    ∃ tried found matched length, m.tryCaptures text m.limits = .ok tried ∧
      m.captures text = .ok found ∧ m.isMatch text = .ok matched ∧
      m.matchLength? text = .ok length ∧ m.CallsAgree text tried found matched length := by
  cases h with
  | @exhausted e hCaptures hMatch =>
    have hFound : m.captures text = .ok ⟨none, [exhaustedRecord m.pattern e]⟩ := by
      simp [captures, hCaptures]
    refine ⟨_, _, _, _, hCaptures, hFound, by rw [isMatch, hMatch],
      by rw [matchLength?, hFound], ?_⟩
    constructor <;> simp [Logged.map, exhaustedRecord]
  | mismatched hCaptures hMatch =>
    have hFound : m.captures text = .ok ⟨none, [mismatchRecord m.pattern text]⟩ := by
      simp [captures, hCaptures]
    refine ⟨_, _, _, _, hCaptures, hFound, by rw [isMatch, hMatch],
      by rw [matchLength?, hFound], ?_⟩
    constructor <;> simp [Logged.map, mismatchRecord]
  | @matched c rest hCaptures hMatch hComplete hText =>
    have hFound : m.captures text = .ok ⟨some c, [matchRecord m.pattern text c.entries]⟩ := by
      simp [captures, hCaptures]
    have hLength := isValid_utf8ByteSize_append c.whole rest
    rw [← hText] at hLength
    refine ⟨_, _, _, _, hCaptures, hFound, by rw [isMatch, hMatch],
      by rw [matchLength?, hFound], ?_⟩
    constructor <;> simp [Logged.map, matchRecord, hComplete, hLength]

/-- All calls of a matcher tell one story.  For every text, and all limits within which no number
leaves its word, the calls give their answers, and the answers agree. -/
theorem calls_agree (hBuild : (build pattern built).value = .ok m) (text : String) :
    (∀ limits, m.NumbersFit text limits →
      ∃ tried decided, m.tryCaptures text limits = .ok tried ∧
        m.tryIsMatch text limits = .ok decided ∧ m.TriesAgree tried decided) ∧
    (m.NumbersFit text built →
      ∃ tried found matched length, m.tryCaptures text built = .ok tried ∧
        m.captures text = .ok found ∧ m.isMatch text = .ok matched ∧
        m.matchLength? text = .ok length ∧ m.CallsAgree text tried found matched length) := by
  obtain ⟨-, rfl⟩ := build_fields hBuild
  constructor
  · intro limits hFits
    obtain ⟨answer, hAnswer⟩ := exists_concludes hBuild hFits
    exact hAnswer.triesAgree
  · intro hFits
    obtain ⟨answer, hAnswer⟩ := exists_concludes hBuild hFits
    exact hAnswer.callsAgree

/-- The pattern `(é)+(b)?` matches four bytes of `ééc`. -/
theorem calls_agree_accented :
    ∃ m tried found matched length,
      (build "(é)+(b)?" (Limits.unlimited.withSteps 1000)).value = .ok m ∧
      m.NumbersFit "ééc" (Limits.unlimited.withSteps 1000) ∧
      m.tryCaptures "ééc" (Limits.unlimited.withSteps 1000) = .ok tried ∧
      m.captures "ééc" = .ok found ∧ m.isMatch "ééc" = .ok matched ∧
      m.matchLength? "ééc" = .ok length ∧ m.CallsAgree "ééc" tried found matched length ∧
      length.value = some 4 := by
  have hComputed :
      (build "(é)+(b)?" (Limits.unlimited.withSteps 1000)).value.toOption.bind (fun m =>
        (m.matchLength? "ééc").toOption.map fun length => (m.regex.quantifiers, length.value)) =
        some ([.oneOrMore, .once, .zeroOrOne, .once], some 4) := by
    decide +kernel
  simp only [Option.bind_eq_some_iff, Option.map_eq_some_iff, toOption_eq_some_iff,
    Prod.mk.injEq] at hComputed
  obtain ⟨m, hBuild, length, hLength, hQuantifiers, hFour⟩ := hComputed
  obtain ⟨r, hProgram, -⟩ := build_spec hBuild
  have hCounts : m.CountsFit "ééc" := by
    rw [CountsFit, hQuantifiers]
    decide
  have hSteps : m.StepsFit "ééc" (Limits.unlimited.withSteps 1000) :=
    stepsFit_of_limit rfl (by decide)
  have hFits := not_overflows_of_fit hProgram hSteps hCounts
  obtain ⟨-, hCalls⟩ := calls_agree hBuild "ééc"
  obtain ⟨tried, found, matched, length', hTried, hFound, hMatched, hMatchLength, hAgree⟩ :=
    hCalls hFits
  cases hLength.symm.trans hMatchLength
  exact ⟨m, tried, found, matched, length, hBuild, hFits, hTried, hFound, hMatched, hMatchLength,
    hAgree, hFour⟩

end Matcher

end BacktrackRegex
