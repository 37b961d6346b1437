import BacktrackRegex.Proofs.Pattern.Course

/-!
# Other ends for what has been read

The places that a pattern leads to up to a certain one do not depend on what comes after that place,
as far as no quantifier is looked for there.  So the end of a pattern can be exchanged for another
one, and the way to the place remains.

* `Replaces` — one end can come in the place of another;
* `Place.Step`, `Place.step_of_advance` — what leads from one place to the next, and to which extent
  it depends on what comes after it;
* `Place.Course`, `Place.Leads.course` — the same for the whole way from one place to another.
-/

set_option autoImplicit false

namespace BacktrackRegex

open Grammar

variable {c c' : Cursor} {depth depth' : Nat} {s t u : List Char} {ch : Char}

/-! ## Texts in the place of others -/

/-- After any text without quantifier, `u` can come in the place of `t`. -/
structure Replaces (t u : List Char) : Prop where
  stops : Stops u
  bare : Bare t → Bare u

theorem Replaces.append (h : Replaces t u) (s : List Char) (hBare : Bare (s ++ t)) :
    Bare (s ++ u) := by
  cases s with
  | nil => exact h.bare hBare
  | cons ch s => exact hBare.exchange (List.cons_ne_nil ch s) h.stops

/-- Behind a character that is refused anything can come. -/
theorem replaces_sign (h : ch ∈ ['*', '+', '?', ']', '(', '^']) (t u : List Char) :
    Replaces (ch :: t) (ch :: u) := by
  refine ⟨stops_cons (fun hBraces => ?_) u, fun hBare => bare_of_head ?_⟩
  · simp only [List.mem_cons, List.not_mem_nil, or_false] at h
    rcases h with rfl | rfl | rfl | rfl | rfl | rfl <;> simp [InBraces] at hBraces
  · rintro _ _ ⟨⟩
    have hHead := hBare.head ch t rfl
    simp only [List.mem_cons, List.not_mem_nil, or_false, not_or] at h hHead
    obtain ⟨hStar, hPlus, hMark⟩ := hHead
    rcases h with rfl | rfl | rfl | rfl | rfl | rfl
    · exact absurd rfl hStar
    · exact absurd rfl hPlus
    · exact absurd rfl hMark
    all_goals decide

namespace Lexis

theorem closers_head (l : Lexis) (h : l.closers = ch :: s) : ch = ']' ∨ ch = ')' := by
  have hMem : ch ∈ l.closers := h ▸ List.mem_cons_self
  rcases List.mem_append.1 hMem with hMem | hMem
  · split at hMem
    · exact .inl (List.mem_singleton.1 hMem)
    · cases hMem
  · exact .inr (List.eq_of_mem_replicate hMem)

theorem closers_bare (l : Lexis) : Bare l.closers := by
  refine bare_of_head fun ch s h => ?_
  rcases l.closers_head h with rfl | rfl <;> decide

theorem replaces_closers (l : Lexis) (t : List Char) : Replaces t l.closers := by
  refine ⟨fun ch s h => ?_, fun _ => l.closers_bare⟩
  rcases l.closers_head h with rfl | rfl <;> simp [InBraces]

end Lexis

namespace Place

/-- The same place with another text left to read. -/
def withRest (p : Place) (s : List Char) : Place := ⟨p.openGroups, p.cursor.withRest s⟩

/-! ## One step -/

/-- The next place is reached over `text`.  The same text leads there with anything else after it,
unless a quantifier or the mark of a group without number would begin there. -/
structure Step (p p' : Place) (text : List Char) : Prop where
  passes : p.cursor.Passes text p'.cursor
  lexis : (Lexis.plain p.openGroups).across text = .plain p'.openGroups
  starts : ∃ ch s, text = ch :: s ∧ ch ≠ '?'
  again : ∀ s, (Bare p'.cursor.rest → Bare s) → (text = ['('] → ∀ u, s ≠ '?' :: u) →
    (p.withRest (text ++ s)).advance = .ok (p'.withRest s)

theorem step_bar (hRest : c.rest = '|' :: s) : Step ⟨depth, c⟩ ⟨depth, c.next⟩ ['|'] where
  passes := Cursor.passes_next hRest
  lexis := rfl
  starts := ⟨'|', [], rfl, by decide⟩
  again u _ _ := by
    rw [withRest, List.singleton_append, advance_bar rfl, Cursor.withRest_next hRest]
    rfl

theorem step_open (hRest : c.rest = '(' :: s) (hDepth : depth < maxNesting) :
    ∃ text, Step ⟨depth, c⟩ ⟨depth + 1, (openGroup c).2⟩ text := by
  by_cases hMark : ∃ t, s = '?' :: ':' :: t
  · obtain ⟨t, rfl⟩ := hMark
    have hNext := Cursor.next_rest_of_cons hRest
    have hNext' := Cursor.next_rest_of_cons hNext
    rw [openGroup_mark hRest]
    refine ⟨['(', '?', ':'], ?_, rfl, ⟨_, _, rfl, by decide⟩, fun u _ _ => ?_⟩
    · exact (Cursor.passes_next hRest).trans
        ((Cursor.passes_next hNext).trans (Cursor.passes_next hNext'))
    · rw [withRest, advance_open (s := '?' :: ':' :: u) rfl hDepth, openGroup_mark (s := u) rfl]
      simp only [List.cons_append, List.nil_append, Cursor.withRest_next hRest,
        Cursor.withRest_next hNext, Cursor.withRest_next hNext']
      rfl
  · have hBare : ∀ t, s ≠ '?' :: ':' :: t := fun t ht => hMark ⟨t, ht⟩
    have hPasses := Cursor.passes_next hRest
    rw [openGroup_bare hRest hBare]
    refine ⟨['('], ⟨hPasses.rest, hPasses.pos⟩, rfl, ⟨_, _, rfl, by decide⟩, fun u _ hu => ?_⟩
    rw [withRest, List.singleton_append, advance_open (s := u) rfl hDepth,
      openGroup_bare (s := u) rfl fun t ht => hu rfl _ ht, Cursor.withRest_next hRest]
    rfl

/-- A piece that is read, over a text of its own that begins with `ch`. -/
structure TakesPiece (depth : Nat) (c : Cursor) (depth' : Nat) (c' : Cursor) (ch : Char)
    (text : List Char) : Prop where
  takes : Takes (fun c => piece ⟨depth, c⟩) c depth' c' (ch :: text)
  head : ch ∉ ['(', '*', '+', '?', '|']
  lexis : (Lexis.plain depth).across (ch :: text) = .plain depth'

theorem takesPiece_close (hRest : c.rest = ')' :: s) :
    TakesPiece (depth + 1) c depth c.next ')' [] where
  takes := ⟨Cursor.passes_next hRest, fun u => by
    rw [List.singleton_append, piece_close rfl, Cursor.withRest_next hRest]⟩
  head := by decide
  lexis := rfl

theorem takesPiece_atom {r : Regex} (hGoes : endsSequence (0 < depth) c.rest = false)
    (hOpen : ∀ s, c.rest ≠ '(' :: s) (h : readAtomBody .refuse c = .ok (r, c')) :
    ∃ ch text, TakesPiece depth c depth c' ch text := by
  obtain ⟨ch, text, ⟨hPasses, hAgain⟩, hHead, hLexis⟩ := readAtomBody_takes hOpen h
  have hNotOpen : ch ≠ '(' := by
    rintro rfl
    exact hOpen _ hPasses.rest
  have hUnmatched : ch = ')' → depth = 0 := by
    rintro rfl
    rw [hPasses.rest] at hGoes
    simpa [endsSequence] using hGoes
  have hGoesOn (u : List Char) : endsSequence (0 < depth) (ch :: text ++ u) = false := by
    rw [hPasses.rest] at hGoes
    exact hGoes
  refine ⟨ch, text, ⟨hPasses, fun u => ?_⟩, ?_, (hLexis depth hUnmatched).across⟩
  · rw [piece_atom (hGoesOn u), hAgain]
    rfl
  · rw [List.mem_cons, not_or]
    exact ⟨hNotOpen, hHead⟩

/-- Every piece takes a text of its own. -/
theorem takesPiece_of_piece (hBar : ∀ s, c.rest ≠ '|' :: s) (hOpen : ∀ s, c.rest ≠ '(' :: s)
    (h : piece ⟨depth, c⟩ = .ok (depth', c')) :
    ∃ ch text, TakesPiece depth c depth' c' ch text := by
  by_cases hClose : 0 < depth ∧ c.rest.head? = some ')'
  · obtain ⟨hDepth, hHead⟩ := hClose
    obtain ⟨s, hRest⟩ := List.head?_eq_some_iff.1 hHead
    obtain ⟨depth, rfl⟩ := Nat.exists_eq_succ_of_ne_zero (Nat.ne_of_gt hDepth)
    cases (piece_close hRest).symm.trans h
    exact ⟨')', [], takesPiece_close hRest⟩
  · rw [piece, if_neg hClose] at h
    obtain ⟨⟨r, c₁⟩, hAtom, hResult⟩ := map_eq_ok_iff.1 h
    cases hResult
    have hGoes : endsSequence (0 < depth) c.rest = false := by
      cases hRest : c.rest with
      | nil => simp [readAtomBody, hRest] at hAtom
      | cons ch s =>
        have hNotBar : ch ≠ '|' := by
          rintro rfl
          exact hBar s hRest
        have hUnmatched : ch = ')' → ¬ 0 < depth :=
          fun hParen hDepth => hClose ⟨hDepth, by rw [hRest, hParen]; rfl⟩
        simpa [endsSequence, hNotBar] using hUnmatched
    exact takesPiece_atom hGoes hOpen hAtom

namespace TakesPiece

variable {text : List Char}

theorem advance (h : TakesPiece depth c depth' c' ch text) (s : List Char) :
    (⟨depth, c.withRest (ch :: text ++ s)⟩ : Place).advance =
      afterPiece (depth', c'.withRest s) := by
  have hHead := h.head
  simp only [List.mem_cons, List.not_mem_nil, or_false, not_or] at hHead
  have hPiece : piece ⟨depth, c.withRest (ch :: text ++ s)⟩ = .ok (depth', c'.withRest s) :=
    h.takes.again s
  rw [advance_piece (by simp [hHead]) (by simp [hHead]), hPiece]
  rfl

theorem bare (h : TakesPiece depth c depth' c' ch text) (hBare : Bare s) :
    (⟨depth, c.withRest (ch :: text ++ s)⟩ : Place).advance = .ok ⟨depth', c'.withRest s⟩ := by
  rw [h.advance, afterPiece, readQuantifier_of_bare hBare]
  rfl

/-- With a quantifier, or without one, a piece leads to the next place. -/
theorem step {q : Quantifier} {c₂ : Cursor} (h : TakesPiece depth c depth' c' ch text)
    (hQuantifier : readQuantifier c' = .ok (q, c₂)) :
    ∃ text', Step ⟨depth, c⟩ ⟨depth', c₂⟩ text' := by
  have hStarts : ch ≠ '?' := by
    rintro rfl
    exact h.head (by decide)
  rcases readQuantifier_takes hQuantifier with ⟨-, rfl, hBare⟩ | ⟨sign, hSign, hLexis⟩
  · exact ⟨ch :: text, h.takes.passes, h.lexis, ⟨_, _, rfl, hStarts⟩,
      fun s hs _ => h.bare (hs hBare)⟩
  · refine ⟨ch :: text ++ sign, h.takes.passes.trans hSign.passes, ?_, ⟨_, _, rfl, hStarts⟩,
      fun s _ _ => ?_⟩
    · rw [Lexis.across_append, h.lexis, (hLexis depth').across]
    · rw [withRest, List.append_assoc, h.advance, afterPiece, hSign.again]
      rfl

end TakesPiece

/-- What leads to the next place is a bar, the opening of a group, or a piece with a quantifier or
without one. -/
theorem step_of_advance {p p' : Place} (h : p.advance = .ok p') : ∃ text, Step p p' text := by
  obtain ⟨depth, c⟩ := p
  by_cases hBar : ∃ s, c.rest = '|' :: s
  · obtain ⟨s, hRest⟩ := hBar
    cases (advance_bar hRest depth).symm.trans h
    exact ⟨_, step_bar hRest⟩
  by_cases hOpen : ∃ s, c.rest = '(' :: s
  · obtain ⟨s, hRest⟩ := hOpen
    by_cases hDepth : depth < maxNesting
    · cases (advance_open hRest hDepth).symm.trans h
      exact step_open hRest hDepth
    · cases (advance_tooDeep hRest (Nat.not_lt.1 hDepth)).symm.trans h
  have hBar' : ∀ s, c.rest ≠ '|' :: s := fun s hs => hBar ⟨s, hs⟩
  have hOpen' : ∀ s, c.rest ≠ '(' :: s := fun s hs => hOpen ⟨s, hs⟩
  rw [advance_piece hBar' hOpen'] at h
  obtain ⟨⟨depth', c₁⟩, hPiece, hAfter⟩ := bind_eq_ok_iff.1 h
  obtain ⟨⟨q, c₂⟩, hQuantifier, rfl⟩ := map_eq_ok_iff.1 hAfter
  obtain ⟨ch, text, hTakes⟩ := takesPiece_of_piece hBar' hOpen' hPiece
  exact hTakes.step hQuantifier

/-! ## Many steps -/

/-- The places lead over `text` from one to another, and do so with another end of the pattern, if
that can come in the place of the one that is there.  The mark of a group without number is an end
that cannot, directly behind the parenthesis of a group. -/
structure Course (p p' : Place) (text : List Char) : Prop where
  passes : p.cursor.Passes text p'.cursor
  lexis : (Lexis.plain p.openGroups).across text = .plain p'.openGroups
  starts : ∀ s, text ≠ '?' :: s
  again : ∀ w t u, p'.cursor.rest = w ++ t → Replaces t u →
    (∀ before depth, text = before ++ ['('] →
      (Lexis.plain p.openGroups).across before = .plain depth → ∀ v, w ++ u ≠ '?' :: v) →
    (p.withRest (text ++ w ++ u)).Leads (p'.withRest (w ++ u))

theorem Course.nil (p : Place) : Course p p [] where
  passes := .nil p.cursor
  lexis := rfl
  starts s h := by cases h
  again w t u _ _ _ := by
    rw [List.nil_append]
    exact .refl _

theorem Course.cons {p q p' : Place} {first text : List Char} (hStep : Step p q first)
    (h : Course q p' text) : Course p p' (first ++ text) where
  passes := hStep.passes.trans h.passes
  lexis := by rw [Lexis.across_append, hStep.lexis, h.lexis]
  starts s hs := by
    obtain ⟨ch, v, rfl, hStarts⟩ := hStep.starts
    exact hStarts (List.cons.inj hs).1
  again w t u hRest hReplaces hMark := by
    have hBare (hBare : Bare q.cursor.rest) : Bare (text ++ w ++ u) := by
      rw [h.passes.rest, hRest, ← List.append_assoc] at hBare
      exact hReplaces.append _ hBare
    have hNext : (p.withRest (first ++ (text ++ w ++ u))).advance =
        .ok (q.withRest (text ++ w ++ u)) := by
      refine hStep.again _ hBare fun hOpen v hv => ?_
      cases text with
      | nil => exact hMark [] p.openGroups (by rw [hOpen]; rfl) rfl v (by simpa using hv)
      | cons ch text =>
        obtain ⟨rfl, -⟩ := List.cons.inj hv
        exact h.starts text rfl
    have hLeads := h.again w t u hRest hReplaces fun before depth hText hLexis => by
      refine hMark (first ++ before) depth (by rw [hText, List.append_assoc]) ?_
      rw [Lexis.across_append, hStep.lexis, hLexis]
    rw [List.append_assoc, List.append_assoc, ← List.append_assoc text]
    exact (leads_of_advance hNext).trans hLeads

theorem Leads.course {p p' : Place} (h : p.Leads p') : ∃ text, Course p p' text := by
  induction h using Relation.ReflTransGen.head_induction_on with
  | refl => exact ⟨[], .nil p'⟩
  | head hNext _ ih =>
    obtain ⟨first, hStep⟩ := step_of_advance hNext
    obtain ⟨text, hCourse⟩ := ih
    exact ⟨first ++ text, .cons hStep hCourse⟩

end Place

end BacktrackRegex
