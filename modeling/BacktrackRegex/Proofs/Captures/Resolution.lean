import BacktrackRegex.Proofs.Captures.Presence
import Mathlib.Data.Nat.SuccPred
import Mathlib.Order.SuccPred.Archimedean

/-!
# What a capture list holds

For a regex whose groups are numbered from one in the order in which they open, the capture list of
a match has the whole match as entry 0, the texts of the present groups at their numbers, and empty
texts for the absent groups before the last present one, with which it ends.

* `resolve_spec` — the capture list of a trace;
* `trim_spec`, `trim_some_cons` — what trimming leaves.
-/

set_option autoImplicit false

namespace BacktrackRegex

/-! ## Spans inside the text -/

/-- The characters of the text that a span covers. -/
def Span.text (s : Span) (text : Array Char) : String :=
  String.ofList ((text.toList.drop s.start).take s.len)

theorem RepetitionsWithin.getElem? {size : Nat} : ∀ {repetitions : List (Repetition Trace)}
    {i : Nat} {repetition : Repetition Trace}, RepetitionsWithin size repetitions →
    repetitions[i]? = some repetition → IterationsWithin size repetition.iterations
  | ⟨_, _⟩ :: _, 0, _, h, hAt => by
    cases hAt
    exact h.2.1
  | ⟨_, _⟩ :: _, _ + 1, _, h, hAt => RepetitionsWithin.getElem? h.2.2 hAt

theorem IterationsWithin.mem {size : Nat} {t : Trace} : ∀ {iterations : List Trace},
    IterationsWithin size iterations → t ∈ iterations → t.Within size
  | u :: iterations, h, hMem => by
    rcases List.mem_cons.1 hMem with rfl | hMem
    · exact h.1
    · exact IterationsWithin.mem h.2 hMem

/-- The span of a present group lies inside the text if all spans of the trace do. -/
theorem Regex.Present.within {size : Nat} {r : Regex} {t : Trace} {k : Nat} {s : Span}
    (h : r.Present t k s) (hWithin : t.Within size) : s.stop ≤ size := by
  induction h with
  | here => exact hWithin.1
  | group _ ih => exact ih hWithin.2
  | item hItem hRepetition hLast _ ih =>
    exact ih ((hWithin.2.getElem? hRepetition).mem (List.mem_of_getLast? hLast))
  | branch _ _ ih => exact ih hWithin

/-! ## Slicing -/

/-- The texts of the spans that are there. -/
def spanTexts (text : Array Char) (spans : List (Option Span)) : List (Option String) :=
  spans.map (Option.map fun s => s.text text)

theorem slice_eq {text : Array Char} {s : Span} (h : s.stop ≤ text.size) :
    slice text s = .ok (s.text text) := by
  have hLen : s.stop - s.start = s.len := Nat.add_sub_cancel_left _ _
  rw [slice, if_pos h, Span.text, Array.toList_extract, List.extract_eq_take_drop, hLen]

theorem sliceEntries_eq {text : Array Char} {spans : List (Option Span)}
    (h : ∀ s, some s ∈ spans → s.stop ≤ text.size) :
    sliceEntries text spans = .ok (spanTexts text spans) := by
  induction spans with
  | nil => rfl
  | cons entry spans ih =>
    have hRest := ih fun s hs => h s (List.mem_cons_of_mem _ hs)
    cases entry with
    | none => simp only [sliceEntries, hRest, spanTexts, List.map_cons, Option.map_none]
    | some s =>
      have hFirst := slice_eq (h s List.mem_cons_self)
      simp only [sliceEntries, hFirst, hRest, spanTexts, List.map_cons, Option.map_some]

/-! ## Trimming -/

theorem dropTrailingAbsent_append {entries absent : List (Option String)} {e : String}
    (h : ∀ entry ∈ absent, entry = none) :
    dropTrailingAbsent (entries ++ some e :: absent) = entries ++ [some e] := by
  have hAll : ∀ entry ∈ absent.reverse, entry.isNone := by
    intro entry hMem
    rw [h entry (List.mem_reverse.1 hMem)]
    rfl
  rw [dropTrailingAbsent, List.reverse_append, List.reverse_cons, List.append_assoc,
    List.dropWhile_append_of_pos hAll, List.singleton_append,
    List.dropWhile_cons_of_neg (by simp), List.reverse_cons, List.reverse_reverse]

/-- Up to the last present entry all stays, and nothing behind it. -/
theorem dropTrailingAbsent_eq_take {entries : List (Option String)} {last : Nat} {e : String}
    (hLast : entries[last]? = some (some e))
    (hLater : ∀ k, last < k → ∀ e', entries[k]? ≠ some (some e')) :
    dropTrailingAbsent entries = entries.take (last + 1) := by
  obtain ⟨hLt, hEntry⟩ := List.getElem?_eq_some_iff.1 hLast
  have hSplit : entries = entries.take last ++ some e :: entries.drop (last + 1) := by
    rw [← hEntry, ← List.drop_eq_getElem_cons hLt, List.take_append_drop]
  have hAbsent : ∀ entry ∈ entries.drop (last + 1), entry = none := by
    intro entry hMem
    obtain ⟨i, hi⟩ := List.mem_iff_getElem?.1 hMem
    rw [List.getElem?_drop] at hi
    cases entry with
    | none => rfl
    | some e' => exact absurd hi (hLater _ (by omega) e')
  rw [List.take_succ_eq_append_getElem hLt, hEntry]
  conv_lhs => rw [hSplit]
  exact dropTrailingAbsent_append hAbsent

/-- Trimming leaves entry 0 as it is, and fills the others up to the last present one. -/
theorem trim_cons {whole : Option String} {groups : List (Option String)} {last : Nat} {e : String}
    (hLast : (whole :: groups)[last]? = some (some e))
    (hLater : ∀ k, last < k → ∀ e', (whole :: groups)[k]? ≠ some (some e')) :
    trim (whole :: groups) =
      whole :: (groups.take last).map fun entry => some (entry.getD "") := by
  rw [trim, dropTrailingAbsent_eq_take hLast hLater, List.take_succ_cons]

/-- Nothing is trimmed off a list without absent entries. -/
theorem trim_of_present {entries : List (Option String)} (h : ∀ entry ∈ entries, entry ≠ none) :
    trim entries = entries := by
  cases entries with
  | nil => rfl
  | cons whole groups =>
    obtain ⟨e, he⟩ : ∃ e, (whole :: groups)[groups.length]? = some (some e) := by
      have hLt : groups.length < (whole :: groups).length := Nat.lt_succ_self _
      rw [List.getElem?_eq_getElem hLt]
      obtain ⟨e, he⟩ := Option.ne_none_iff_exists'.1 (h _ (List.getElem_mem hLt))
      exact ⟨e, congrArg some he⟩
    have hLater : ∀ k, groups.length < k → ∀ e', (whole :: groups)[k]? ≠ some (some e') := by
      intro k hk e' hAt
      rw [List.getElem?_eq_none (by rw [List.length_cons]; omega)] at hAt
      cases hAt
    have hFilled : ∀ entry ∈ groups, some (entry.getD "") = entry := by
      intro entry hMem
      obtain ⟨e, rfl⟩ := Option.ne_none_iff_exists'.1 (h entry (List.mem_cons_of_mem _ hMem))
      rfl
    rw [trim_cons he hLater, List.take_length, List.map_congr_left hFilled, List.map_id']

/-- What trimming makes of a list with an entry 0: each entry up to the last present one, with an
empty text in place of an absent one. -/
theorem trim_spec {w : String} {groups : List (Option String)} {last : Nat}
    (hLast : IsGreatest {k | ∃ e, (some w :: groups)[k]? = some (some e)} last) :
    (trim (some w :: groups)).length = 1 + last ∧
      (∀ k ≤ last, (trim (some w :: groups))[k]? =
        some (some (((some w :: groups)[k]?).join.getD ""))) ∧
      ∀ entry ∈ trim (some w :: groups), entry ≠ none := by
  obtain ⟨⟨e, he⟩, hGreatest⟩ := hLast
  have hLater : ∀ k, last < k → ∀ e', (some w :: groups)[k]? ≠ some (some e') := by
    intro k hk e' hAt
    exact absurd (hGreatest ⟨e', hAt⟩) (Nat.not_le_of_lt hk)
  have hLe : last ≤ groups.length := by
    have := (List.getElem?_eq_some_iff.1 he).1
    rw [List.length_cons] at this
    omega
  rw [trim_cons he hLater]
  refine ⟨?_, ?_, ?_⟩
  · rw [List.length_cons, List.length_map, List.length_take, Nat.min_eq_left hLe, Nat.add_comm]
  · intro k hk
    cases k with
    | zero => rfl
    | succ i =>
      have hEntry : groups[i]? = some groups[i] := List.getElem?_eq_getElem (by omega)
      rw [List.getElem?_cons_succ, List.getElem?_cons_succ, List.getElem?_map,
        List.getElem?_take_of_lt hk, hEntry]
      rfl
  · intro entry hMem
    rcases List.mem_cons.1 hMem with rfl | hMem
    · exact Option.some_ne_none w
    · obtain ⟨entry', -, rfl⟩ := List.mem_map.1 hMem
      exact Option.some_ne_none _

/-- A list with an entry 0 keeps it, gets no longer, and has no absent entries left. -/
theorem trim_some_cons (w : String) (groups : List (Option String)) :
    1 ≤ (trim (some w :: groups)).length ∧
      (trim (some w :: groups)).length ≤ groups.length + 1 ∧
      (trim (some w :: groups))[0]? = some (some w) ∧
      ∀ entry ∈ trim (some w :: groups), entry ≠ none := by
  obtain ⟨last, hLast⟩ :
      ∃ last, IsGreatest {k | ∃ e, (some w :: groups)[k]? = some (some e)} last := by
    refine BddAbove.exists_isGreatest_of_nonempty ⟨groups.length, ?_⟩ ⟨0, w, rfl⟩
    rintro k ⟨e, hAt⟩
    have hLt := (List.getElem?_eq_some_iff.1 hAt).1
    exact Nat.le_of_lt_succ hLt
  obtain ⟨hLength, hAt, hPresent⟩ := trim_spec hLast
  obtain ⟨e, he⟩ := hLast.1
  have hLt := (List.getElem?_eq_some_iff.1 he).1
  rw [List.length_cons] at hLt
  exact ⟨by omega, by omega, hAt 0 (Nat.zero_le _), hPresent⟩

/-! ## Capture lists -/

/-- Behind an entry 0, the texts of the spans stand at the numbers of their groups. -/
theorem Lists.entry_iff {spans : List (Option Span)} {P : Nat → Span → Prop}
    (h : Lists 1 spans P) {text : Array Char} {w e : String} {k : Nat} :
    (some w :: spanTexts text spans)[k]? = some (some e) ↔
      (k = 0 ∧ e = w) ∨ ∃ s, P k s ∧ s.text text = e := by
  cases k with
  | zero =>
    constructor
    · intro hAt
      cases hAt
      exact .inl ⟨rfl, rfl⟩
    · rintro (⟨-, rfl⟩ | ⟨s, hs, -⟩)
      · rfl
      · obtain ⟨i, hi, -⟩ := (h 0 s).1 hs
        omega
  | succ i =>
    rw [List.getElem?_cons_succ, spanTexts, List.getElem?_map]
    constructor
    · intro hAt
      obtain ⟨entry, hSpan, hMap⟩ := Option.map_eq_some_iff.1 hAt
      obtain ⟨s, rfl, hText⟩ := Option.map_eq_some_iff.1 hMap
      exact .inr ⟨s, (h _ s).2 ⟨i, Nat.add_comm i 1, hSpan⟩, hText⟩
    · rintro (⟨hZero, -⟩ | ⟨s, hs, rfl⟩)
      · cases hZero
      · obtain ⟨j, hj, hSpan⟩ := (h _ s).1 hs
        obtain rfl : i = j := by omega
        rw [hSpan]
        rfl

/-- There is a last group. -/
theorem Lists.exists_isGreatest {spans : List (Option Span)} {P : Nat → Span → Prop}
    (h : Lists 1 spans P) : ∃ last, IsGreatest {k | k = 0 ∨ ∃ s, P k s} last := by
  refine BddAbove.exists_isGreatest_of_nonempty ⟨spans.length, ?_⟩ ⟨0, .inl rfl⟩
  rintro k (rfl | ⟨s, hs⟩)
  · exact Nat.zero_le _
  · obtain ⟨i, rfl, hAt⟩ := (h k s).1 hs
    have := (List.getElem?_eq_some_iff.1 hAt).1
    omega

/-- The spans that a walk over the trace collects can be sliced out of the text. -/
theorem resolve_eq_trim {r : Regex} {t : Trace} {text : Array Char} {spans : List (Option Span)}
    (hOk : r.groupSpans 1 t = .ok spans) (hLength : spans.length = r.groupCount)
    (hLists : Lists 1 spans (r.Present t)) (hWithin : t.Within text.size) :
    resolve r t text = .ok (trim (some (t.span.text text) :: spanTexts text spans)) := by
  have hInside : ∀ s, some s ∈ some t.span :: spans → s.stop ≤ text.size := by
    intro s hs
    rcases List.mem_cons.1 hs with hRoot | hGroup
    · rw [Option.some.inj hRoot]
      exact hWithin.span
    · obtain ⟨i, hi⟩ := List.mem_iff_getElem?.1 hGroup
      exact ((hLists (1 + i) s).2 ⟨i, rfl, hi⟩).within hWithin
  rw [resolve, hOk]
  simp only [if_pos hLength, sliceEntries_eq hInside]
  rfl

/-- The capture list of a trace: as long as the last present group asks for, with the whole match at
place 0, the text of each present group at its number, and empty texts between. -/
theorem resolve_spec (r : Regex) (t : Trace) (text : Array Char) (hNumbered : r.NumberedFrom 1)
    (hFits : r.Fits t) (hWithin : t.Within text.size) :
    ∃ entries last, resolve r t text = .ok entries ∧
      IsGreatest {k | k = 0 ∨ ∃ s, r.Present t k s} last ∧ entries.length = 1 + last ∧
      entries[0]? = some (some (t.span.text text)) ∧
      (∀ k s, r.Present t k s → entries[k]? = some (some (s.text text))) ∧
      (∀ k, 1 ≤ k → k ≤ last → (∀ s, ¬ r.Present t k s) → entries[k]? = some (some "")) ∧
      (∀ entry ∈ entries, entry ≠ none) ∧ trim entries = entries := by
  obtain ⟨spans, hOk, hLength, hLists⟩ := r.groupSpans_spec 1 t hNumbered hFits
  obtain ⟨last, hLast⟩ := hLists.exists_isGreatest
  -- Before trimming, an entry has a text exactly if its group is present.
  have hSame : {k | ∃ e, (some (t.span.text text) :: spanTexts text spans)[k]? = some (some e)} =
      {k | k = 0 ∨ ∃ s, r.Present t k s} := by
    ext k
    constructor
    · rintro ⟨e, hAt⟩
      rcases hLists.entry_iff.1 hAt with ⟨hZero, -⟩ | ⟨s, hPresent, -⟩
      · exact .inl hZero
      · exact .inr ⟨s, hPresent⟩
    · rintro (hZero | ⟨s, hPresent⟩)
      · exact ⟨_, hLists.entry_iff.2 (.inl ⟨hZero, rfl⟩)⟩
      · exact ⟨_, hLists.entry_iff.2 (.inr ⟨s, hPresent, rfl⟩)⟩
  obtain ⟨hSize, hAt, hSome⟩ := trim_spec (hSame ▸ hLast)
  refine ⟨_, last, resolve_eq_trim hOk hLength hLists hWithin, hLast, hSize,
    hAt 0 (Nat.zero_le _), ?_, ?_, hSome, trim_of_present hSome⟩
  · intro k s hPresent
    rw [hAt k (hLast.2 (.inr ⟨s, hPresent⟩)), hLists.entry_iff.2 (.inr ⟨s, hPresent, rfl⟩)]
    rfl
  · intro k hPos hLe hAbsent
    rw [hAt k hLe]
    cases hRead : (some (t.span.text text) :: spanTexts text spans)[k]? with
    | none => rfl
    | some entry =>
      cases entry with
      | none => rfl
      | some e =>
        rcases hLists.entry_iff.1 hRead with ⟨rfl, -⟩ | ⟨s, hPresent, -⟩
        · omega
        · exact absurd hPresent (hAbsent s)

/-- The pattern `(?:(a)|(b))*(c)?`. -/
def Regex.threeGroups : Regex :=
  .seq [
    (.alt [.group (some 1) (.leaf (.only 'a')), .group (some 2) (.leaf (.only 'b'))], .zeroOrMore),
    (.group (some 3) (.leaf (.only 'c')), .zeroOrOne)]

/-- How it matches `ab`: group 1 in the first iteration, group 2 in the last one, group 3 not. -/
def Trace.threeGroups : Trace :=
  .seq ⟨0, 2⟩ [
    ⟨⟨0, 2⟩, [.alt 0 (.group ⟨0, 1⟩ (.char ⟨0, 1⟩)), .alt 1 (.group ⟨1, 1⟩ (.char ⟨1, 1⟩))]⟩,
    ⟨⟨2, 0⟩, []⟩]

theorem resolve_threeGroups :
    Regex.threeGroups.NumberedFrom 1 ∧ Regex.threeGroups.Fits .threeGroups ∧
      Trace.threeGroups.Within 2 ∧
      ∃ entries last, resolve .threeGroups .threeGroups #['a', 'b'] = .ok entries ∧
        IsGreatest {k | k = 0 ∨ ∃ s, Regex.threeGroups.Present .threeGroups k s} last ∧
        entries.length = 1 + last ∧ entries[0]? = some (some (Span.text ⟨0, 2⟩ #['a', 'b'])) ∧
        (∀ k s, Regex.threeGroups.Present .threeGroups k s →
          entries[k]? = some (some (s.text #['a', 'b']))) ∧
        (∀ k, 1 ≤ k → k ≤ last → (∀ s, ¬ Regex.threeGroups.Present .threeGroups k s) →
          entries[k]? = some (some "")) ∧
        (∀ entry ∈ entries, entry ≠ none) ∧ trim entries = entries := by
  have hNumbered : Regex.threeGroups.NumberedFrom 1 := rfl
  have hFits : Regex.threeGroups.Fits .threeGroups := by
    simp [Regex.threeGroups, Trace.threeGroups, Regex.Fits, ItemsFit, BranchFits]
  have hWithin : Trace.threeGroups.Within 2 := by
    simp [Trace.threeGroups, Trace.Within, RepetitionsWithin, IterationsWithin, Span.stop]
  exact ⟨hNumbered, hFits, hWithin, resolve_spec _ _ _ hNumbered hFits hWithin⟩

example : resolve .threeGroups .threeGroups #['a', 'b'] =
    .ok [some "ab", some "", some "b"] := by decide

end BacktrackRegex
