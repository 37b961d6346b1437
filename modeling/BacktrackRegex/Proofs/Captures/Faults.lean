import BacktrackRegex.Proofs.Captures.Resolution

/-!
# Which traces resolve

Nothing says that a regex and a trace belong together.  The capture list is made from whatever part
of the trace the walk looks at, and is refused exactly if that part does not fit, or if a span that
is to be sliced out leaves the text.  What the walk passes by, such as all iterations of an item but
the last one, may be anything.

* `Resolvable` — the regex fits the trace where the walk looks, and the text holds the spans;
* `sliceEntries_of_outside` — slicing stops at a span that leaves the text;
* `resolve_succeeds_iff` — what resolves, and that a capture list always has the right length.
-/

set_option autoImplicit false

namespace BacktrackRegex

/-- The walk over the trace finds what it asks for, and the text holds the whole match and every
group that the walk meets. -/
structure Resolvable (r : Regex) (t : Trace) (text : Array Char) : Prop where
  fits : r.FitsFrom 1 t
  whole : t.span.stop ≤ text.size
  groups : ∀ k s, r.Present t k s → s.stop ≤ text.size

variable {r : Regex} {t : Trace} {text : Array Char}

theorem sliceEntries_of_outside {spans : List (Option Span)}
    (h : ¬ ∀ s, some s ∈ spans → s.stop ≤ text.size) :
    sliceEntries text spans = .error .spanOutside := by
  induction spans with
  | nil => simp at h
  | cons entry spans ih =>
    cases entry with
    | none =>
      have hRest : sliceEntries text spans = .error .spanOutside := ih (by simpa using h)
      simp only [sliceEntries, hRest]
    | some s =>
      by_cases hInside : s.stop ≤ text.size
      · have hRest : sliceEntries text spans = .error .spanOutside :=
          ih (by simpa [hInside] using h)
        simp only [sliceEntries, slice_eq hInside, hRest]
      · simp only [sliceEntries, slice, if_neg hInside]

/-- A walk that succeeds has put in one entry for each group. -/
theorem Regex.groupSpans_length {next : Nat} {spans : List (Option Span)}
    (h : r.groupSpans next t = .ok spans) : spans.length = r.groupCount := by
  have hCollects := r.groupSpans_collects next t
  rw [h] at hCollects
  cases hCollects with
  | ok _ hLength _ => exact hLength

/-- The text has to hold the whole match and the groups that are present, and nothing else. -/
theorem Lists.inside_iff {spans : List (Option Span)} {P : Nat → Span → Prop} {whole : Span}
    {size : Nat} (h : Lists 1 spans P) :
    (∀ s, some s ∈ some whole :: spans → s.stop ≤ size) ↔
      whole.stop ≤ size ∧ ∀ k s, P k s → s.stop ≤ size := by
  constructor
  · intro hInside
    refine ⟨hInside whole List.mem_cons_self, ?_⟩
    intro k s hGroup
    obtain ⟨i, -, hAt⟩ := (h k s).1 hGroup
    exact hInside s (List.mem_cons_of_mem _ (List.mem_of_getElem? hAt))
  · rintro ⟨hWhole, hGroups⟩ s hMem
    rcases List.mem_cons.1 hMem with hRoot | hMem
    · cases hRoot
      exact hWhole
    · obtain ⟨i, hAt⟩ := List.mem_iff_getElem?.1 hMem
      exact hGroups (1 + i) s ((h (1 + i) s).2 ⟨i, rfl, hAt⟩)

/-- There is a capture list, or else a fault that blames the trace or the text. -/
theorem resolve_cases (r : Regex) (t : Trace) (text : Array Char) :
    (Resolvable r t text ∧ ∃ entries, resolve r t text = .ok entries) ∨
      (¬ Resolvable r t text ∧ ∃ f, f ≠ .captureCount ∧ resolve r t text = .error f) := by
  have hCollects := r.groupSpans_collects 1 t
  unfold resolve
  cases hWalk : r.groupSpans 1 t with
  | error f =>
    rw [hWalk] at hCollects
    cases hCollects with
    | error hFits hFault => exact .inr ⟨fun h => hFits h.fits, f, hFault, rfl⟩
  | ok spans =>
    rw [hWalk] at hCollects
    cases hCollects with
    | ok hFits hLength hLists =>
      simp only [if_pos hLength]
      by_cases hInside : ∀ s, some s ∈ some t.span :: spans → s.stop ≤ text.size
      · obtain ⟨hWhole, hGroups⟩ := hLists.inside_iff.1 hInside
        simp only [sliceEntries_eq hInside]
        exact .inl ⟨⟨hFits, hWhole, hGroups⟩, _, rfl⟩
      · refine .inr ⟨fun h => hInside (hLists.inside_iff.2 ⟨h.whole, h.groups⟩), ?_⟩
        simp only [sliceEntries_of_outside hInside]
        exact ⟨.spanOutside, nofun, rfl⟩

/-- A trace resolves exactly if the regex fits it where the walk looks and the text holds the whole
match and all groups that the walk meets; in every other case the answer is a fault.  The fault is
never that the list has the wrong length: a walk that succeeds puts in one entry for each group. -/
theorem resolve_succeeds_iff (r : Regex) (t : Trace) (text : Array Char) :
    ((∃ entries, resolve r t text = .ok entries) ↔
      r.FitsFrom 1 t ∧ t.span.stop ≤ text.size ∧ ∀ k s, r.Present t k s → s.stop ≤ text.size) ∧
    ((∃ f, f ≠ .captureCount ∧ resolve r t text = .error f) ↔
      ¬ (r.FitsFrom 1 t ∧ t.span.stop ≤ text.size ∧
        ∀ k s, r.Present t k s → s.stop ≤ text.size)) ∧
    resolve r t text ≠ .error .captureCount ∧
    ∀ next spans, r.groupSpans next t = .ok spans → spans.length = r.groupCount := by
  have hIff : Resolvable r t text ↔ r.FitsFrom 1 t ∧ t.span.stop ≤ text.size ∧
      ∀ k s, r.Present t k s → s.stop ≤ text.size :=
    ⟨fun h => ⟨h.fits, h.whole, h.groups⟩, fun ⟨hFits, hWhole, hGroups⟩ => ⟨hFits, hWhole, hGroups⟩⟩
  rw [← hIff]
  rcases resolve_cases r t text with ⟨h, entries, hOk⟩ | ⟨h, f, hFault, hError⟩
  · rw [hOk]
    exact ⟨by simp [h], by simp [h], nofun, fun next spans => Regex.groupSpans_length⟩
  · rw [hError]
    exact ⟨by simp [h], by simp [h, hFault], by simp [hFault],
      fun next spans => Regex.groupSpans_length⟩

/-- How `(?:(a)|(b))*(c)?` is said to match `ab`, with a first iteration that no branch could have
had. -/
def Trace.straightened : Trace :=
  .seq ⟨0, 2⟩ [
    ⟨⟨0, 2⟩, [.char ⟨7, 1⟩, .alt 1 (.group ⟨1, 1⟩ (.char ⟨1, 1⟩))]⟩,
    ⟨⟨2, 0⟩, []⟩]

/-- Only the last iteration is looked at, so this trace resolves though it is not of the shape of
the regex. -/
theorem resolve_succeeds_straightened :
    ¬ Regex.threeGroups.Fits .straightened ∧
      Regex.threeGroups.FitsFrom 1 .straightened ∧
      ∃ entries, resolve .threeGroups .straightened #['a', 'b'] = .ok entries := by
  have hShape : ¬ Regex.threeGroups.Fits .straightened := by
    simp [Regex.threeGroups, Trace.straightened, Regex.Fits, ItemsFit]
  have hResolves : (resolve .threeGroups .straightened #['a', 'b']).toOption =
      some [some "ab", some "", some "b"] := by
    decide
  have hOk := toOption_eq_some_iff.1 hResolves
  obtain ⟨hSucceeds, -⟩ := resolve_succeeds_iff .threeGroups .straightened #['a', 'b']
  exact ⟨hShape, (hSucceeds.1 ⟨_, hOk⟩).1, _, hOk⟩

end BacktrackRegex
