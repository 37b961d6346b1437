import BacktrackRegex.Proofs.Pattern.Acceptance
import BacktrackRegex.Proofs.Pattern.Equations

/-!
# Where repetition bounds are refused

A complete brace form after an atom is refused at its brace if its bounds are out of order, and at a
bound that has more than 32 bits.  A bound is refused as soon as its digits are read, though, when
nothing is known yet of what comes after them.  So a text that begins like a brace form and never
completes one is refused as well, if one of its numbers is too large.  If none is, its brace is an
ordinary character.

* `Grammar.BoundAt` — the numbers that are read as bounds, complete form or not;
* `Grammar.FaultyForm`, `Grammar.UnfinishedForm` — what is refused;
* `Located` — a reader goes on in the text, or fails at a place of it;
* `invalidRepetition_spec` — what is refused in a pattern, and what is read literally.
-/

set_option autoImplicit false

namespace BacktrackRegex

namespace Grammar

/-! ## Bounds -/

/-- After `opening`, which begins with a brace, the text goes on with the number `n` in the place of
a bound: the first one after the brace, the second one after digits and a comma.  What follows the
number may be anything but a digit. -/
inductive BoundAt : List Char → Nat → List Char → Prop
  | lower {s t : List Char} {n : Nat} (h : Number s n t) (hNext : NoDigit t) :
    BoundAt ['\x7b'] n s
  | upper {digits s t : List Char} {n : Nat} (hSome : digits ≠ [])
    (hDigits : ∀ c ∈ digits, c.isDigit = true) (h : Number s n t) (hNext : NoDigit t) :
    BoundAt ('\x7b' :: digits ++ [',']) n s

/-- Every bound that the text has after the brace that it begins with is a 32-bit word. -/
def BoundsFit (s : List Char) : Prop :=
  ∀ opening n after, s = opening ++ after → BoundAt opening n after → n < UInt32.size

/-- A complete brace form, `opening` and more, that is at fault: at its brace, if the bounds are out
of order, or at a bound, if this is too large. -/
inductive FaultyForm : List Char → List Char → Prop
  | disordered {s t : List Char} {min max : Nat} (hForm : BraceForm s min (some max) t)
    (hOrder : max < min) : FaultyForm [] s
  | large {opening s : List Char} {n : Nat} (hForm : OpensBraces (opening ++ s))
    (hBound : BoundAt opening n s) (hLarge : UInt32.size ≤ n) : FaultyForm opening s

/-- No brace form is completed, but after `opening` comes a number that is too large for a bound. -/
def UnfinishedForm (opening s : List Char) : Prop :=
  ¬ OpensBraces (opening ++ s) ∧ ∃ n, BoundAt opening n s ∧ UInt32.size ≤ n

variable {opening s t : List Char} {n : Nat}

theorem Number.exists_digits (h : Number s n t) :
    ∃ digits, digits ≠ [] ∧ (∀ c ∈ digits, c.isDigit = true) ∧ s = digits ++ t := by
  cases h with
  | intro hSome hDigits => exact ⟨_, hSome, hDigits, rfl⟩

theorem Number.ne_nil (h : Number s n t) : s ≠ [] := by
  obtain ⟨digits, hSome, -, rfl⟩ := h.exists_digits
  exact List.append_ne_nil_of_left_ne_nil hSome t

theorem FaultyForm.opensBraces (h : FaultyForm opening s) : OpensBraces (opening ++ s) := by
  cases h with
  | disordered hForm hOrder => exact ⟨_, _, _, hForm⟩
  | large hForm hBound hLarge => exact hForm

theorem UnfinishedForm.not_boundsFit (h : UnfinishedForm opening s) :
    ¬ BoundsFit (opening ++ s) := by
  obtain ⟨-, n, hBound, hLarge⟩ := h
  intro hFits
  exact absurd (hFits opening n s rfl hBound) (Nat.not_lt.2 hLarge)

/-- A bound that is too large is at fault in a complete form, and an unfinished one otherwise. -/
theorem BoundAt.refused (h : BoundAt opening n s) (hLarge : UInt32.size ≤ n) :
    FaultyForm opening s ∨ UnfinishedForm opening s := by
  by_cases hForm : OpensBraces (opening ++ s)
  · exact .inl (.large hForm h hLarge)
  · exact .inr ⟨hForm, n, h, hLarge⟩

/-- Behind a brace without a digit there is nothing that could complete a form. -/
theorem not_opensBraces_of_noDigit (h : NoDigit s) : ¬ OpensBraces ('\x7b' :: s) := by
  rintro ⟨min, max, t, hMin, hMax⟩
  exact hMin.not_noDigit h

theorem boundsFit_of_noDigit (h : NoDigit s) : BoundsFit ('\x7b' :: s) := by
  intro opening n after hSplit hBound
  cases hBound with
  | lower hNumber hNext =>
    cases hSplit
    exact (hNumber.not_noDigit h).elim
  | upper hSome hDigits hNumber hNext =>
    obtain ⟨d, ds, rfl⟩ := List.exists_cons_of_ne_nil hSome
    cases hSplit
    exact absurd (h d _ rfl) (by simp [hDigits d List.mem_cons_self])

end Grammar

open Grammar

variable {c c' : Cursor} {s t : List Char}

/-! ## Places -/

/-- Going over `read` leads from `c` to `c'`. -/
structure Cursor.Passes (c : Cursor) (read : List Char) (c' : Cursor) : Prop where
  rest : c.rest = read ++ c'.rest
  pos : c'.pos = c.pos + byteLength read

/-- The place of `c'` is `c` or further on in the text. -/
def Cursor.Reaches (c c' : Cursor) : Prop := ∃ read, c.Passes read c'

namespace Cursor

theorem Passes.trans {c c₁ c₂ : Cursor} (h : c.Passes s c₁) (h' : c₁.Passes t c₂) :
    c.Passes (s ++ t) c₂ where
  rest := by rw [h.rest, h'.rest, List.append_assoc]
  pos := by rw [h'.pos, h.pos, byteLength_append, Nat.add_assoc]

theorem passes_next {ch : Char} (h : c.rest = ch :: s) : c.Passes [ch] c.next where
  rest := by rw [next_rest_of_cons h, h, List.singleton_append]
  pos := by rw [next_of_cons h]; rfl

theorem Reaches.refl (c : Cursor) : c.Reaches c :=
  ⟨[], rfl, rfl⟩

theorem Reaches.trans {c c₁ c₂ : Cursor} (h : c.Reaches c₁) (h' : c₁.Reaches c₂) :
    c.Reaches c₂ := by
  obtain ⟨s, hs⟩ := h
  obtain ⟨t, ht⟩ := h'
  exact ⟨s ++ t, hs.trans ht⟩

theorem reaches_next (c : Cursor) : c.Reaches c.next := by
  cases h : c.rest with
  | nil => rw [Cursor.next, h]; exact .refl c
  | cons ch s => exact ⟨[ch], passes_next h⟩

end Cursor

/-- The failure is at a place of what was left to read at `c`, and so is the reader, which stops
there or further on.  If bounds are refused there, a form that is at fault or unfinished has led to
the place of the failure. -/
def Failure.LocatedFrom (c : Cursor) (f : Failure) : Prop :=
  c.Reaches f.stop ∧ ∃ before after,
    c.rest = before ++ after ∧ f.position = c.pos + byteLength before ∧
    (f.cause = .invalidRepetition →
      ∃ opening, opening <:+ before ∧ (FaultyForm opening after ∨ UnfinishedForm opening after))

/-- What a reading from `c` comes to: it goes on in the text, or fails at a place of it. -/
inductive Located {α : Type} (c : Cursor) : Reading α → Prop
  | ok {a : α} {c' : Cursor} (h : c.Reaches c') : Located c (.ok (a, c'))
  | error {f : Failure} (h : f.LocatedFrom c) : Located c (.error f)

theorem Located.reaches {α : Type} {result : Reading α} {a : α} (h : Located c result)
    (hOk : result = .ok (a, c')) : c.Reaches c' := by
  cases h with
  | ok h => cases hOk; exact h
  | error => cases hOk

theorem Located.failure {α : Type} {result : Reading α} {f : Failure} (h : Located c result)
    (hError : result = .error f) : f.LocatedFrom c := by
  cases h with
  | ok => cases hError
  | error h => cases hError; exact h

theorem Failure.LocatedFrom.of_reaches {f : Failure} (h : f.LocatedFrom c')
    (hReaches : c.Reaches c') : f.LocatedFrom c := by
  obtain ⟨hStop, before, after, hRest', hPosition, hBounds⟩ := h
  refine ⟨hReaches.trans hStop, ?_⟩
  obtain ⟨read, hRest, hPos⟩ := hReaches
  refine ⟨read ++ before, after, by rw [hRest, hRest', List.append_assoc], ?_, ?_⟩
  · rw [hPosition, hPos, byteLength_append, Nat.add_assoc]
  · intro hCause
    obtain ⟨opening, hSuffix, hRefused⟩ := hBounds hCause
    exact ⟨opening, hSuffix.trans (List.suffix_append read before), hRefused⟩

theorem Located.of_reaches {α : Type} {result : Reading α} (h : Located c' result)
    (hReaches : c.Reaches c') : Located c result := by
  cases h with
  | ok h => exact .ok (hReaches.trans h)
  | error h => exact .error (h.of_reaches hReaches)

theorem Located.map {α β : Type} {result : Reading α} (h : Located c result) (g : α → β) :
    Located c (result.map fun (a, c') => (g a, c')) := by
  cases h with
  | ok h => exact .ok h
  | error h => exact .error h

theorem Located.bind {α β : Type} {result : Reading α} {k : α × Cursor → Reading β}
    (h : Located c result) (hNext : ∀ a c', result = .ok (a, c') → Located c' (k (a, c'))) :
    Located c (result.bind k) := by
  cases h with
  | ok h => exact (hNext _ _ rfl).of_reaches h
  | error h => exact .error h

theorem Located.unsupported {α : Type} {stop : Cursor} (hStop : c.Reaches stop) :
    Located (α := α) c (.error (.unsupported c.pos stop)) :=
  .error ⟨hStop, [], c.rest, rfl, rfl, fun hCause => by cases hCause⟩

/-! ## Quantifiers -/

theorem readNumber_reaches {n : Option UInt32} (h : readNumber c = .ok (n, c')) :
    c.Reaches c' := by
  unfold readNumber at h
  split at h
  · cases h
    exact .refl c
  · split at h <;> cases h
    exact ⟨c.rest.takeWhile Char.isDigit, List.takeWhile_append_dropWhile.symm, rfl⟩

/-- The digits of a number that is refused have been read all the same. -/
theorem readNumber_stop {f : Failure} (h : readNumber c = .error f) : c.Reaches f.stop := by
  unfold readNumber at h
  split at h
  · cases h
  · split at h <;> cases h
    exact ⟨c.rest.takeWhile Char.isDigit, List.takeWhile_append_dropWhile.symm, rfl⟩

/-- A number is refused where it begins, and only for having more than 32 bits. -/
theorem readNumber_error {f : Failure} (h : readNumber c = .error f) :
    (∃ n t, Number c.rest n t ∧ NoDigit t ∧ UInt32.size ≤ n) ∧
      f.cause = .invalidRepetition ∧ f.position = c.pos := by
  unfold readNumber at h
  split at h
  · cases h
  · rename_i digits hSome
    split at h <;> cases h
    rename_i hLarge
    exact ⟨⟨_, _, number_takeWhile hSome, noDigit_dropWhile c.rest, Nat.not_lt.1 hLarge⟩, rfl, rfl⟩

theorem readNumber_error_of_large {n : Nat} (h : Number c.rest n t) (hNext : NoDigit t)
    (hLarge : UInt32.size ≤ n) : ∃ f, readNumber c = .error f := by
  obtain ⟨hSome, hValue, -⟩ := h.spec hNext
  unfold readNumber
  split
  · contradiction
  · dsimp only
    rw [dif_neg (by omega)]
    exact ⟨_, rfl⟩

theorem readUpperBound_reaches {min : UInt32} {max : Option UInt32}
    (h : readUpperBound min c = .ok (max, c')) : c.Reaches c' := by
  unfold readUpperBound at h
  split at h
  · exact c.reaches_next.trans (readNumber_reaches h)
  · cases h
    exact .refl c

theorem readUpperBound_error {min : UInt32} {f : Failure}
    (h : readUpperBound min c = .error f) :
    ∃ s, c.rest = ',' :: s ∧ readNumber c.next = .error f := by
  unfold readUpperBound at h
  split at h
  · exact ⟨_, by assumption, h⟩
  · cases h

theorem readBraces_reaches {q : Quantifier} (h : readBraces c = .ok (q, c')) :
    c.Reaches c' := by
  unfold readBraces at h
  split at h
  · cases h
  · cases h
    exact .refl c
  · rename_i hMin
    split at h
    · cases h
    · rename_i c₂ hMax
      split at h
      · split at h <;> cases h
        exact c.reaches_next.trans ((readNumber_reaches hMin).trans
          ((readUpperBound_reaches hMax).trans c₂.reaches_next))
      · cases h
        exact .refl c

/-- What is refused after an opening brace, and where. -/
theorem readBraces_error {f : Failure} (hRest : c.rest = '\x7b' :: s)
    (h : readBraces c = .error f) :
    f.cause = .invalidRepetition ∧ ∃ opening after, c.rest = opening ++ after ∧
      f.position = c.pos + byteLength opening ∧
      (FaultyForm opening after ∨ UnfinishedForm opening after) := by
  have hBrace := Cursor.passes_next hRest
  unfold readBraces at h
  split at h
  · rename_i hMin
    cases h
    obtain ⟨⟨n, t, hNumber, hStop, hLarge⟩, hCause, hPosition⟩ := readNumber_error hMin
    exact ⟨hCause, _, _, hBrace.rest, hPosition.trans hBrace.pos,
      (BoundAt.lower hNumber hStop).refused hLarge⟩
  · cases h
  · rename_i min c₁ hMin
    obtain ⟨hNumber, -⟩ := readNumber_some hMin
    split at h
    · -- The digits of the first bound and the comma lead to the second one.
      rename_i hMax
      cases h
      obtain ⟨u, hComma, hUpper⟩ := readUpperBound_error hMax
      obtain ⟨⟨n, t, hNumber', hStop, hLarge⟩, hCause, hPosition⟩ := readNumber_error hUpper
      obtain ⟨digits, hDigits⟩ := readNumber_reaches hMin
      have hPasses := (hBrace.trans hDigits).trans (Cursor.passes_next hComma)
      have hBound : BoundAt ('\x7b' :: digits ++ [',']) n c₁.next.rest := by
        obtain ⟨run, hSome, hRun, hSplit⟩ := hNumber.exists_digits
        rw [List.append_cancel_right (hDigits.rest.symm.trans hSplit)]
        exact .upper hSome hRun hNumber' hStop
      exact ⟨hCause, _, _, hPasses.rest, hPosition.trans hPasses.pos, hBound.refused hLarge⟩
    · rename_i max c₂ hMax
      split at h
      · rename_i t hClose
        split at h <;> cases h
        rename_i hLow
        obtain ⟨max, rfl, hLow⟩ := (Option.any_eq_true _ _).1 hLow
        have hForm : BraceForm c.rest min.toNat (some max.toNat) t := by
          rw [hRest, ← Cursor.next_rest_of_cons hRest]
          exact .intro hNumber ((readUpperBound_iff hMax).2 ⟨rfl, hClose⟩)
        have hOrder : max.toNat < min.toNat := by
          simpa [UInt32.lt_iff_toNat_lt] using hLow
        exact ⟨rfl, [], c.rest, rfl, rfl, .inl (.disordered hForm hOrder)⟩
      · cases h

theorem readBraces_stop {f : Failure} (h : readBraces c = .error f) : c.Reaches f.stop := by
  unfold readBraces at h
  split at h
  · rename_i hMin
    cases h
    exact c.reaches_next.trans (readNumber_stop hMin)
  · cases h
  · rename_i min c₁ hMin
    have hFirst : c.Reaches c₁ := c.reaches_next.trans (readNumber_reaches hMin)
    split at h
    · rename_i hMax
      cases h
      obtain ⟨-, -, hUpper⟩ := readUpperBound_error hMax
      exact hFirst.trans (c₁.reaches_next.trans (readNumber_stop hUpper))
    · rename_i max c₂ hMax
      split at h
      · split at h <;> cases h
        exact hFirst.trans ((readUpperBound_reaches hMax).trans c₂.reaches_next)
      · cases h

theorem readBraces_located (hRest : c.rest = '\x7b' :: s) : Located c (readBraces c) := by
  cases h : readBraces c with
  | ok result => exact .ok (readBraces_reaches h)
  | error f =>
    obtain ⟨-, opening, after, hSplit, hPosition, hRefused⟩ := readBraces_error hRest h
    exact .error ⟨readBraces_stop h, opening, after, hSplit, hPosition, fun _ =>
      ⟨opening, List.suffix_refl opening, hRefused⟩⟩

theorem readQuantifier_located (c : Cursor) : Located c (readQuantifier c) := by
  unfold readQuantifier
  split
  case h_4 hRest => exact readBraces_located hRest
  case h_5 => exact .ok (.refl c)
  all_goals exact .ok c.reaches_next

/-- A bound that is too large is refused wherever it stands behind a brace. -/
theorem readBraces_error_of_bound {opening after : List Char} {n : Nat}
    (hSplit : c.rest = opening ++ after) (hBound : BoundAt opening n after)
    (hLarge : UInt32.size ≤ n) : ∃ f, readBraces c = .error f := by
  unfold readBraces
  cases hBound with
  | lower hNumber hStop =>
    have hNext : c.next.rest = after := Cursor.next_rest_of_cons hSplit
    rw [← hNext] at hNumber
    obtain ⟨f, hMin⟩ := readNumber_error_of_large hNumber hStop hLarge
    exact ⟨f, by simp only [hMin]⟩
  | @upper digits _ _ _ hSome hDigits hNumber hStop =>
    have hNext : c.next.rest = digits ++ ',' :: after :=
      Cursor.next_rest_of_cons (by simpa using hSplit)
    have hFirst := Number.intro hSome hDigits (',' :: after)
    rw [← hNext] at hFirst
    split
    · exact ⟨_, rfl⟩
    · rename_i hMin
      exact absurd (readNumber_none hMin).2 hFirst.not_noDigit
    · rename_i min c₁ hMin
      obtain ⟨hNumber₁, hStop₁⟩ := readNumber_some hMin
      obtain ⟨-, hComma⟩ := hNumber₁.unique hFirst hStop₁ (noDigit_cons (by decide) after)
      rw [← Cursor.next_rest_of_cons hComma] at hNumber
      obtain ⟨f, hMax⟩ := readNumber_error_of_large hNumber hStop hLarge
      have hUpper : readUpperBound min c₁ = .error f := by
        simp only [readUpperBound, hComma, hMax]
      exact ⟨f, by simp only [hUpper]⟩

/-- Where no brace form is completed, the brace is left alone if the bounds behind it fit, and one
of them is refused otherwise. -/
theorem readQuantifier_of_unfinished (hRest : c.rest = '\x7b' :: s)
    (hBare : ¬ OpensBraces c.rest) :
    (BoundsFit c.rest → readQuantifier c = .ok (.once, c)) ∧
      (¬ BoundsFit c.rest → ∃ f opening after, readQuantifier c = .error f ∧
        f.cause = .invalidRepetition ∧ c.rest = opening ++ after ∧
        f.position = c.pos + byteLength opening ∧ UnfinishedForm opening after) := by
  have hBraces : readQuantifier c = readBraces c := by
    simp only [readQuantifier, hRest]
  rw [hBraces]
  constructor
  · intro hFits
    cases h : readBraces c with
    | ok result =>
      obtain ⟨q, c'⟩ := result
      rcases readBraces_spec hRest h with hQuantified | ⟨rfl, rfl, -⟩
      · rw [hRest] at hQuantified hBare
        cases hQuantified with
        | braces hForm hOrder => exact (hBare ⟨_, _, _, hForm⟩).elim
      · rfl
    | error f =>
      obtain ⟨-, opening, after, hSplit, -, hFaulty | hUnfinished⟩ := readBraces_error hRest h
      · exact absurd (hSplit ▸ hFaulty.opensBraces) hBare
      · exact absurd (hSplit ▸ hFits) hUnfinished.not_boundsFit
  · intro hLarge
    simp only [BoundsFit, not_forall] at hLarge
    obtain ⟨opening, n, after, hSplit, hBound, hLarge⟩ := hLarge
    obtain ⟨f, h⟩ := readBraces_error_of_bound hSplit hBound (Nat.not_lt.1 hLarge)
    obtain ⟨hCause, opening, after, hSplit, hPosition, hFaulty | hUnfinished⟩ :=
      readBraces_error hRest h
    · exact absurd (hSplit ▸ hFaulty.opensBraces) hBare
    · exact ⟨f, opening, after, h, hCause, hSplit, hPosition, hUnfinished⟩

/-! ## Characters -/

theorem readMembers_located (nextId pos : Nat) (members rest : List Char) :
    Located ⟨rest, pos, nextId⟩ (readMembers nextId pos members rest) := by
  fun_induction readMembers nextId pos members rest with
  | case1 => exact .unsupported (.refl _)
  | case2 => exact .ok (Cursor.reaches_next _)
  | case3 => exact .unsupported (Cursor.reaches_next _)
  | case4 pos members ch rest ih =>
    exact ih.of_reaches ((Cursor.reaches_next _).trans (Cursor.reaches_next _))
  | case5 => exact .unsupported (Cursor.reaches_next _)
  | case6 pos members ch rest _ _ _ _ ih => exact ih.of_reaches (Cursor.reaches_next _)

theorem openClass_reaches (c : Cursor) : c.Reaches (openClass c).2 := by
  unfold openClass
  split
  · exact c.reaches_next.trans c.next.reaches_next
  · exact c.reaches_next

theorem readClass_located (c : Cursor) : Located c (readClass c) := by
  have hMembers := (readMembers_located (openClass c).2.nextId (openClass c).2.pos []
    (openClass c).2.rest).of_reaches (openClass_reaches c)
  unfold readClass
  split <;> rename_i h
  · exact .error (hMembers.failure h)
  · exact .ok (hMembers.reaches h)

theorem readEscape_located (c : Cursor) : Located c (readEscape c) := by
  unfold readEscape
  split
  · exact .unsupported c.reaches_next
  · exact .ok (c.reaches_next.trans c.next.reaches_next)

/-! ## Regexes -/

/-- A reader that goes on in the text or fails at a place of it. -/
def Consumer.Locates (atom : Consumer Regex) : Prop := ∀ c, Located c (atom.read c)

section

variable {nested : Bool} {atom : Consumer Regex}

theorem readItems_located (hAtom : atom.Locates) (c : Cursor) :
    Located c (readItems nested atom c) := by
  induction c using readItems_induction nested atom with
  | ends c hEnds =>
    rw [readItems, if_pos hEnds]
    exact .ok (.refl c)
  | goes c hGoes ih =>
    rw [readItems_of_goes hGoes]
    refine (hAtom c).bind fun r c₁ hFirst => (readQuantifier_located c₁).bind ?_
    intro q c₂ hQuantifier
    exact (ih r c₁ q c₂ hFirst hQuantifier).map ((r, q) :: ·)

theorem readSequence_located (hAtom : atom.Locates) (c : Cursor) :
    Located c (readSequence nested atom c) := by
  rw [readSequence_eq]
  exact (readItems_located hAtom c).map Regex.seq

theorem readBranches_located (hAtom : atom.Locates) (c : Cursor) :
    Located c (readBranches nested atom c) := by
  induction c using readBranches_induction nested atom with
  | bare c hBare =>
    rw [readBranches_of_bare hBare]
    exact .ok (.refl c)
  | bar c s hRest ih =>
    rw [readBranches_of_bar hRest]
    refine Located.of_reaches ?_ c.reaches_next
    apply (readSequence_located hAtom c.next).bind
    intro r c₁ hBranch
    exact (ih r c₁ hBranch).map (r :: ·)

theorem readAlternation_located (hAtom : atom.Locates) (c : Cursor) :
    Located c (readAlternation nested atom c) := by
  rw [readAlternation_eq]
  apply (readSequence_located hAtom c).bind
  intro first c₁ _
  exact (readBranches_located hAtom c₁).map first.alternation

theorem openGroup_reaches (c : Cursor) : c.Reaches (openGroup c).2 := by
  unfold openGroup
  split
  · exact (c.reaches_next.trans c.next.reaches_next).trans c.next.next.reaches_next
  · obtain ⟨read, hRest, hPos⟩ := c.reaches_next
    exact ⟨read, hRest, hPos⟩

theorem readGroup_locates (hAtom : atom.Locates) : (readGroup atom).Locates := by
  intro c
  have hBody : Located c (readAlternation true atom (openGroup c).2) :=
    (readAlternation_located hAtom (openGroup c).2).of_reaches (openGroup_reaches c)
  change Located c (readGroupBody atom c)
  unfold readGroupBody
  split <;> rename_i h
  · obtain ⟨hStop, hPlace⟩ := hBody.failure h
    exact .error ⟨hStop, hPlace⟩
  · rename_i body c₁
    have hReaches := hBody.reaches h
    split
    · exact .ok (hReaches.trans c₁.reaches_next)
    · exact (Located.unsupported (.refl c₁)).of_reaches hReaches

theorem readAtomWith_locates {group : Consumer Regex} (hGroup : group.Locates) :
    (readAtomWith group).Locates := by
  intro c
  change Located c (readAtomBody group c)
  unfold readAtomBody
  split
  · exact .unsupported (.refl c)
  · exact hGroup c
  · exact readClass_located c
  · exact readEscape_located c
  · exact .ok c.reaches_next
  · split
    · exact .unsupported (.refl c)
    · exact .ok c.reaches_next

theorem readAtom_locates (levels : Nat) : (readAtom levels).Locates := by
  induction levels with
  | zero => exact readAtomWith_locates fun c => .unsupported (.refl c)
  | succ levels ih => exact readAtomWith_locates (readGroup_locates ih)

theorem atEnd_located (r : Regex) (c : Cursor) : Located c (atEnd (r, c)) := by
  dsimp only [atEnd]
  split
  · exact .ok (.refl c)
  · exact .unsupported (.refl c)

theorem readPattern_located (openGroups : Nat) (c : Cursor) :
    Located c (readPattern openGroups c) := by
  rw [readPattern_eq]
  apply (readAlternation_located (readAtom_locates (maxNesting - openGroups)) c).bind
  intro r c₁ _
  exact atEnd_located r c₁

end

/-! ## Whole patterns -/

/-- Where a pattern is refused. -/
theorem parse_error {pattern : String} {e : CompileError} (h : parse pattern = .error e) :
    ∃ before after, pattern.toList = before ++ after ∧ e.position = byteLength before ∧
      (e.cause = .invalidRepetition → ∃ opening, opening <:+ before ∧
        (FaultyForm opening after ∨ UnfinishedForm opening after)) := by
  unfold parse at h
  split at h
  · rename_i f hPattern
    cases h
    obtain ⟨-, before, after, hSplit, hPosition, hBounds⟩ :=
      (readPattern_located 0 (.start pattern.toList)).failure hPattern
    exact ⟨before, after, hSplit, hPosition.trans (Nat.zero_add _), hBounds⟩
  · cases h

theorem readAtom_brace (levels : Nat) (hRest : c.rest = '\x7b' :: s) :
    (readAtom levels).read c = .ok (.leaf (.only '\x7b'), c.next) := by
  have hBody (group : Consumer Regex) :
      readAtomBody group c = .ok (.leaf (.only '\x7b'), c.next) := by
    simp [readAtomBody, hRest]
  cases levels with
  | zero => exact hBody .refuse
  | succ levels => exact hBody (readGroup (readAtom levels))

/-- Bounds are refused only where a form has led to them that is at fault or unfinished.  After an
atom, a brace that opens no complete form is an ordinary character, the next atom of the sequence,
if the bounds behind it fit, and only then: otherwise one of these is refused. -/
theorem invalidRepetition_spec (pattern : String) :
    (∀ e p, ({ pattern } : Parser).parse = .ok (.error e, p) → e.cause = .invalidRepetition →
      ∃ before opening after, pattern.toList = before ++ opening ++ after ∧
        e.position = byteLength (before ++ opening) ∧
        (FaultyForm opening after ∨ UnfinishedForm opening after)) ∧
    ∀ nested levels c r c₁ s, endsSequence nested c.rest = false →
      (readAtom levels).read c = .ok (r, c₁) → c₁.rest = '\x7b' :: s → ¬ OpensBraces c₁.rest →
      (BoundsFit c₁.rest →
        readItems nested (readAtom levels) c =
          (readItems nested (readAtom levels) c₁).map
            (fun (items, c₂) => ((r, .once) :: items, c₂)) ∧
        (readAtom levels).read c₁ = .ok (.leaf (.only '\x7b'), c₁.next)) ∧
      (¬ BoundsFit c₁.rest → ∃ f opening after,
        readItems nested (readAtom levels) c = .error f ∧ f.cause = .invalidRepetition ∧
          c₁.rest = opening ++ after ∧ f.position = c₁.pos + byteLength opening ∧
          UnfinishedForm opening after) := by
  constructor
  · intro e p hParse hCause
    obtain ⟨p', hNew⟩ := Parser.parse_new pattern
    rw [hNew] at hParse
    simp only [Except.ok.injEq, Prod.mk.injEq] at hParse
    obtain ⟨before, after, hSplit, hPosition, hBounds⟩ := parse_error hParse.1
    obtain ⟨opening, ⟨start, rfl⟩, hRefused⟩ := hBounds hCause
    exact ⟨start, opening, after, hSplit, hPosition, hRefused⟩
  · intro nested levels c r c₁ s hGoes hAtom hRest hBare
    obtain ⟨hLiteral, hRefuse⟩ := readQuantifier_of_unfinished hRest hBare
    rw [readItems_of_goes hGoes, hAtom]
    dsimp only [Except.bind]
    constructor
    · intro hFits
      rw [hLiteral hFits]
      exact ⟨rfl, readAtom_brace levels hRest⟩
    · intro hLarge
      obtain ⟨f, opening, after, hError, hRefused⟩ := hRefuse hLarge
      rw [hError]
      exact ⟨f, opening, after, rfl, hRefused⟩

/-- The bounds of `(é{3,2})` are refused at the brace, which is at byte three; `{,2}` after an atom
is read character by character. -/
theorem invalidRepetition_disordered :
    (∃ e p, ({ pattern := "(é\x7b3,2\x7d)" } : Parser).parse = .ok (.error e, p) ∧
      e.cause = .invalidRepetition ∧ e.position = 3 ∧
      ∃ before opening after, "(é\x7b3,2\x7d)".toList = before ++ opening ++ after ∧
        e.position = byteLength (before ++ opening) ∧
        (FaultyForm opening after ∨ UnfinishedForm opening after)) ∧
    readItems false (readAtom 0) ⟨['a', '\x7b', ',', '2', '\x7d'], 0, 1⟩ =
      (readItems false (readAtom 0) ⟨['\x7b', ',', '2', '\x7d'], 1, 1⟩).map
        fun (items, c) => ((.leaf (.only 'a'), .once) :: items, c) := by
  constructor
  · obtain ⟨p, hNew⟩ := Parser.parse_new "(é\x7b3,2\x7d)"
    have hComputed : (parse "(é\x7b3,2\x7d)").map (fun _ => ()) =
        .error ⟨.invalidRepetition, "(é\x7b3,2\x7d)", 3⟩ := by
      decide +kernel
    rw [map_eq_error_iff.1 hComputed] at hNew
    exact ⟨_, p, hNew, rfl, rfl, (invalidRepetition_spec "(é\x7b3,2\x7d)").1 _ p hNew rfl⟩
  · have hDigit : NoDigit [',', '2', '\x7d'] := noDigit_cons (by decide) _
    exact (((invalidRepetition_spec "").2 false 0 ⟨['a', '\x7b', ',', '2', '\x7d'], 0, 1⟩
      _ ⟨['\x7b', ',', '2', '\x7d'], 1, 1⟩ _ rfl rfl rfl
      (not_opensBraces_of_noDigit hDigit)).1 (boundsFit_of_noDigit hDigit)).1

/-- The number in `a{99999999999x}` is refused, though no complete brace form is anywhere in it. -/
theorem invalidRepetition_unfinished :
    ∃ e p, ({ pattern := "a\x7b99999999999x\x7d" } : Parser).parse = .ok (.error e, p) ∧
      e.cause = .invalidRepetition ∧ e.position = 2 ∧
      ¬ ∃ before opening after, "a\x7b99999999999x\x7d".toList = before ++ opening ++ after ∧
        FaultyForm opening after := by
  obtain ⟨p, hNew⟩ := Parser.parse_new "a\x7b99999999999x\x7d"
  have hComputed : (parse "a\x7b99999999999x\x7d").map (fun _ => ()) =
      .error ⟨.invalidRepetition, "a\x7b99999999999x\x7d", 2⟩ := by
    decide +kernel
  rw [map_eq_error_iff.1 hComputed] at hNew
  refine ⟨_, p, hNew, rfl, rfl, ?_⟩
  rintro ⟨before, opening, after, hSplit, hFaulty⟩
  obtain ⟨min, max, t, hForm⟩ := hFaulty.opensBraces
  rw [List.append_assoc] at hSplit
  generalize opening ++ after = form at hForm hSplit
  obtain ⟨hMin, hMax⟩ := hForm
  -- The only brace of the pattern is its second character.
  match before with
  | [] => cases hSplit
  | [_] =>
    cases hSplit
    obtain ⟨-, -, hLeft⟩ := hMin.spec hMax.noDigit
    cases hLeft
    cases hMax
  | _ :: _ :: before =>
    obtain ⟨-, hSplit⟩ := List.cons.inj hSplit
    obtain ⟨-, hSplit⟩ := List.cons.inj hSplit
    have hBrace : '\x7b' ∈ "99999999999x\x7d".toList := by
      rw [show "99999999999x\x7d".toList = _ from hSplit]
      simp
    exact absurd hBrace (by decide)

end BacktrackRegex
