import BacktrackRegex.Proofs.Pattern.Exchange

/-!
# Where patterns are refused

A pattern is refused at the exact place: what comes before it can be completed to a pattern that is
read, by closing what is open there, and what stands there cannot follow in any pattern.

* `Place.Completes` — texts that are read to the end;
* `Place.Stuck`, `Place.stuck_of_advance` — what can be said of a place where something is refused;
* `Place.Course.accepted`, `Place.Course.refused` — what can be said of the way there;
* `CompileError.ExactAt`, `parse_error_exact` — the position of a compile error.
-/

set_option autoImplicit false

namespace BacktrackRegex

open Grammar

variable {c c' : Cursor} {depth depth' : Nat} {s t u : List Char} {ch : Char}

namespace Place

/-! ## Texts that are read to the end -/

/-- Inside `depth` groups the text is read to the end of a pattern, wherever it is what is left. -/
def Completes (depth : Nat) (s : List Char) : Prop :=
  ∀ c : Cursor, (⟨depth, c.withRest s⟩ : Place).Accepted

/-- An ordinary character before such a text is read by itself. -/
theorem Completes.plain (h : Completes depth s) (hBare : Bare s)
    (hPlain : ch ∉ ['(', '[', '\\', '.', '*', '+', '?', ']', '|', ')']) :
    Completes depth (ch :: s) := by
  intro c
  have hRest : (c.withRest (ch :: s)).rest = ch :: s := rfl
  have hNext := Cursor.next_rest_of_cons hRest
  simp only [List.mem_cons, List.not_mem_nil, or_false, not_or] at hPlain
  have hAtom : readAtomBody .refuse (c.withRest (ch :: s)) =
      .ok (.leaf (.only ch), (c.withRest (ch :: s)).next) :=
    readAtomBody_plain hRest (by simp [hPlain])
  have hGoes : endsSequence (0 < depth) (ch :: s) = false := by
    simp [endsSequence, hPlain]
  obtain ⟨d, text, hTakes⟩ := takesPiece_atom hGoes (by simp [hPlain]) hAtom
  have hText : ch :: s = d :: text ++ s := by
    simpa only [hRest, hNext] using hTakes.takes.passes.rest
  have hAdvance := hTakes.bare hBare
  rw [← hText] at hAdvance
  exact (leads_of_advance hAdvance).accepted (h (c.withRest (ch :: s)).next)

theorem Completes.digits {digits : List Char} (h : Completes depth s) (hBare : Bare s)
    (hDigits : ∀ d ∈ digits, d.isDigit = true) :
    Completes depth (digits ++ s) ∧ Bare (digits ++ s) := by
  induction digits with
  | nil => exact ⟨h, hBare⟩
  | cons d digits ih =>
    obtain ⟨hCompletes, hBare'⟩ := ih fun e he => hDigits e (List.mem_cons_of_mem d he)
    have hDigit := hDigits d List.mem_cons_self
    refine ⟨hCompletes.plain hBare' fun hSign => ?_, bare_of_head ?_⟩
    · simp only [List.mem_cons, List.not_mem_nil, or_false] at hSign
      rcases hSign with rfl | rfl | rfl | rfl | rfl | rfl | rfl | rfl | rfl | rfl <;> cases hDigit
    · rintro _ _ ⟨⟩ hSign
      simp only [List.mem_cons, List.not_mem_nil, or_false] at hSign
      rcases hSign with rfl | rfl | rfl | rfl <;> cases hDigit

/-- Closing parentheses, one for each group, lead out of all groups to the end of the pattern. -/
theorem completes_closers (depth : Nat) : Completes depth (List.replicate depth ')') := by
  induction depth with
  | zero => exact fun c => ⟨_, .refl _, rfl, rfl⟩
  | succ depth ih =>
    intro c
    have hRest : (c.withRest (List.replicate (depth + 1) ')')).rest =
      ')' :: List.replicate depth ')' := rfl
    have hBare : Bare (List.replicate depth ')') := (Lexis.plain depth).closers_bare
    exact (leads_of_advance ((takesPiece_close hRest).bare hBare)).accepted (ih _)

/-- What comes before a refused bound is read character by character, and then what is open is
closed. -/
theorem Completes.withheld {opening : List Char} (h : Completes depth s) (hBare : Bare s)
    (hOpening : Withheld opening) : Completes depth (opening ++ s) := by
  cases hOpening with
  | form => exact h
  | lower => exact h.plain hBare (by decide)
  | @upper digits hSome hDigits hFits =>
    have hComma : Bare (',' :: s) := bare_of_head (by rintro _ _ ⟨⟩; decide)
    have hRest : Completes depth (',' :: s) := h.plain hBare (by decide)
    obtain ⟨hCompletes, hBareDigits⟩ := hRest.digits hComma hDigits
    rw [List.append_assoc, List.cons_append]
    exact hCompletes.plain hBareDigits (by decide)

/-! ## Places where something is refused -/

/-- Something is refused at the place, after `text` and before `t`.  With what is open there closed,
`text` is read to the end.  The groups that count as open are those that `text` leaves open.  If it
is the syntax that is refused, and not for a lone backslash at the end, then the first character of
`t` is refused whatever comes after it. -/
structure Stuck (p : Place) (f : Failure) (text t : List Char) : Prop where
  rest : p.cursor.rest = text ++ t
  position : f.position = p.cursor.pos + byteLength text
  starts : ∀ s, text ≠ '?' :: s
  mends : (p.withRest (text ++ ((Lexis.plain p.openGroups).across text).closers)).Accepted
  unclosed : p.unclosed = ((Lexis.plain p.openGroups).across text).unclosed t
  again : f.cause = .unsupportedSyntax → ∀ ch s, t = ch :: s → ¬ (ch = '\\' ∧ s = []) →
    ch ∈ ['*', '+', '?', ']', '(', '^'] ∧
      ∀ u, ∃ f', (p.withRest (text ++ ch :: u)).advance = .error f' ∧
        f'.cause = .unsupportedSyntax ∧ f'.position = f.position

/-- What is refused before anything of a piece is read. -/
theorem Stuck.here {p : Place} {f : Failure} (hPosition : f.position = p.cursor.pos)
    (hUnclosed : p.unclosed = (Lexis.plain p.openGroups).unclosed p.cursor.rest)
    (hAgain : ∀ ch s, p.cursor.rest = ch :: s → ¬ (ch = '\\' ∧ s = []) →
      ch ∈ ['*', '+', '?', ']', '(', '^'] ∧ ∀ u, (p.withRest (ch :: u)).advance =
        .error (.unsupported p.cursor.pos (p.cursor.withRest (ch :: u)))) :
    Stuck p f [] p.cursor.rest where
  rest := rfl
  position := hPosition
  starts s h := by cases h
  mends := completes_closers p.openGroups p.cursor
  unclosed := hUnclosed
  again _ ch s hs hLone := by
    obtain ⟨hSign, hRefused⟩ := hAgain ch s hs hLone
    exact ⟨hSign, fun u => ⟨_, hRefused u, rfl, hPosition.symm⟩⟩

/-- No piece begins with such a character. -/
theorem advance_reserved (hSign : ch ∈ ['*', '+', '?', ']']) (hRest : c.rest = ch :: s)
    (depth : Nat) : advance ⟨depth, c⟩ = .error (.unsupported c.pos c) := by
  simp only [List.mem_cons, List.not_mem_nil, or_false] at hSign
  have hAtom : readAtomBody .refuse c = .error (.unsupported c.pos c) := by
    rcases hSign with rfl | rfl | rfl | rfl <;> simp [readAtomBody, hRest]
  have hGoes : endsSequence (0 < depth) c.rest = false := by
    rcases hSign with rfl | rfl | rfl | rfl <;> simp [endsSequence, hRest]
  have hNotBar : ch ≠ '|' := by
    rcases hSign with rfl | rfl | rfl | rfl <;> decide
  have hNotOpen : ch ≠ '(' := by
    rcases hSign with rfl | rfl | rfl | rfl <;> decide
  rw [advance_piece (by simp [hRest, hNotBar]) (by simp [hRest, hNotOpen]), piece_atom hGoes, hAtom]
  rfl

theorem advance_class (hRest : c.rest = '[' :: s) (depth : Nat) :
    advance ⟨depth, c⟩ =
      ((readClass c).map fun result => (depth, result.2)).bind afterPiece := by
  have hAtom : readAtomBody .refuse c = readClass c := by
    simp only [readAtomBody, hRest]
  have hGoes : endsSequence (0 < depth) c.rest = false := by
    rw [hRest]
    rfl
  rw [advance_piece (by simp [hRest]) (by simp [hRest]), piece_atom hGoes, hAtom]

theorem stuck_class {f : Failure} (hRest : c.rest = '[' :: s) (h : readClass c = .error f)
    (hPiece : piece ⟨depth, c⟩ = .error f) : ∃ text t, Stuck ⟨depth, c⟩ f text t := by
  obtain ⟨text, t, hSplit, hCause, hPosition, hLexis, hMends, hEnd⟩ := readClass_error hRest h
  refine ⟨'[' :: text, t, hSplit, hPosition, by simp, ?_, ?_, fun _ ch s hs hLone => ?_⟩
  · rw [(hLexis depth).across, Lexis.closers_members]
    obtain ⟨r, c', hRead, hLeft⟩ := hMends (List.replicate depth ')')
    have hBare : Bare c'.rest := by
      rw [hLeft]
      exact (Lexis.plain depth).closers_bare
    have hAdvance : (withRest ⟨depth, c⟩ ('[' :: text ++ ']' :: List.replicate depth ')')).advance =
        .ok ⟨depth, c'⟩ := by
      rw [withRest, advance_class (s := text ++ ']' :: List.replicate depth ')') rfl, hRead]
      change afterPiece (depth, c') = _
      rw [afterPiece, readQuantifier_of_bare hBare]
      rfl
    refine (leads_of_advance hAdvance).accepted ?_
    have hAccepted := completes_closers depth c'
    rwa [← hLeft, Cursor.withRest_self] at hAccepted
  · rw [(hLexis depth).across, Lexis.unclosed_members,
      unclosed_of_piece_error (by simp [hRest]) hPiece]
  · rcases hEnd with rfl | rfl | ⟨v, rfl, hAgain⟩
    · cases hs
    · cases hs
      exact absurd ⟨rfl, rfl⟩ hLone
    · cases hs
      refine ⟨by decide, fun u => ?_⟩
      obtain ⟨stop, hRead⟩ := hAgain u
      refine ⟨.unsupported f.position stop, ?_, rfl, rfl⟩
      rw [withRest, advance_class (s := text ++ '^' :: u) rfl, hRead]
      rfl

theorem stuck_quantifier {f : Failure} {text : List Char} (hOpen : ∀ s, c.rest ≠ '(' :: s)
    (hPiece : piece ⟨depth, c⟩ = .ok (depth', c'))
    (hTakes : TakesPiece depth c depth' c' ch text) (h : readQuantifier c' = .error f) :
    ∃ text t, Stuck ⟨depth, c⟩ f text t := by
  obtain ⟨hCause, opening, t, hSplit, hSome, hPosition, hWithheld⟩ := readQuantifier_error h
  have hPasses := hTakes.takes.passes
  have hLexis : (Lexis.plain depth).across (ch :: text ++ opening) = .plain depth' := by
    rw [Lexis.across_append, hTakes.lexis, (hWithheld.lexis depth').across]
  refine ⟨ch :: text ++ opening, t, ?_, ?_, ?_, ?_, ?_, fun hUnsupported => ?_⟩
  · rw [hPasses.rest, hSplit, List.append_assoc]
  · rw [hPosition, hPasses.pos, byteLength_append, Nat.add_assoc]
  · rintro s hs
    obtain ⟨rfl, -⟩ := List.cons.inj hs
    exact hTakes.head (by decide)
  · have hClosers := (Lexis.plain depth').replaces_closers []
    have hBare := hWithheld.bare (Lexis.plain depth').closers_bare hClosers.stops
    rw [hLexis, withRest, List.append_assoc]
    exact (leads_of_advance (hTakes.bare hBare)).accepted
      ((completes_closers depth').withheld (Lexis.plain depth').closers_bare hWithheld c')
  · have hEnd : c.rest ≠ [] := by simp [hPasses.rest]
    rw [hLexis, Lexis.unclosed_of_ne_nil _ hSome, unclosed_of_piece hOpen hEnd hPiece]
    rfl
  · cases hCause.symm.trans hUnsupported

/-- An atom is refused where it stands, unless it is a class. -/
theorem stuck_atom {f : Failure} (hOpen : ∀ s, c.rest ≠ '(' :: s) (hBar : ∀ s, c.rest ≠ '|' :: s)
    (h : readAtomBody .refuse c = .error f) (hPiece : piece ⟨depth, c⟩ = .error f) :
    ∃ text t, Stuck ⟨depth, c⟩ f text t := by
  have hUnclosed : unclosed ⟨depth, c⟩ = (Lexis.plain depth).unclosed c.rest := by
    by_cases hEnd : c.rest = []
    · simp [unclosed, Lexis.unclosed, hEnd, Lexis.inClass, Lexis.openGroups]
    · rw [unclosed_of_piece_error hEnd hPiece, Lexis.unclosed_of_ne_nil _ hEnd]
      rfl
  unfold readAtomBody at h
  split at h
  · rename_i hRest
    cases h
    exact ⟨_, _, .here rfl hUnclosed fun ch s hs => by cases hRest.symm.trans hs⟩
  · rename_i hRest
    exact absurd hRest (hOpen _)
  · rename_i hRest
    exact stuck_class hRest h hPiece
  · rename_i t hRest
    unfold readEscape at h
    split at h
    · rename_i hNone
      cases h
      refine ⟨_, _, .here rfl hUnclosed fun ch s hs hLone => ?_⟩
      cases hRest.symm.trans hs
      exact absurd ⟨rfl, (Cursor.next_rest_of_cons hRest).symm.trans hNone⟩ hLone
    · cases h
  · cases h
  · rename_i ch t hParen hBracket hSlash hDot hRest
    split at h <;> cases h
    rename_i hReserved
    have hNotBar : ch ≠ '|' := by
      rintro rfl
      exact hBar t hRest
    have hSign : ch ∈ ['*', '+', '?', ']'] := by
      simpa [hNotBar] using hReserved
    refine ⟨_, _, .here rfl hUnclosed fun d s hs _ => ?_⟩
    cases hRest.symm.trans hs
    exact ⟨List.mem_append_left ['(', '^'] hSign, fun u => advance_reserved hSign rfl depth⟩

theorem stuck_of_advance {p : Place} {f : Failure} (h : p.advance = .error f) :
    ∃ text t, Stuck p f text t := by
  obtain ⟨depth, c⟩ := p
  by_cases hBar : ∃ s, c.rest = '|' :: s
  · obtain ⟨s, hRest⟩ := hBar
    cases (advance_bar hRest depth).symm.trans h
  by_cases hOpen : ∃ s, c.rest = '(' :: s
  · obtain ⟨s, hRest⟩ := hOpen
    by_cases hDepth : depth < maxNesting
    · cases (advance_open hRest hDepth).symm.trans h
    · have hDeep := Nat.not_lt.1 hDepth
      cases (advance_tooDeep hRest hDeep).symm.trans h
      have hUnclosed : unclosed ⟨depth, c⟩ = (Lexis.plain depth).unclosed c.rest := by
        rw [Lexis.unclosed_of_ne_nil _ (by simp [hRest])]
        simp only [unclosed, hRest, Lexis.openGroups]
      refine ⟨_, _, .here rfl hUnclosed fun d s hs _ => ?_⟩
      cases hRest.symm.trans hs
      exact ⟨by decide, fun u => advance_tooDeep rfl hDeep⟩
  have hBar' : ∀ s, c.rest ≠ '|' :: s := fun s hs => hBar ⟨s, hs⟩
  have hOpen' : ∀ s, c.rest ≠ '(' :: s := fun s hs => hOpen ⟨s, hs⟩
  rw [advance_piece hBar' hOpen'] at h
  rcases bind_eq_error_iff.1 h with hPiece | ⟨⟨depth', c₁⟩, hPiece, hAfter⟩
  · have hAtom := hPiece
    unfold piece at hAtom
    split at hAtom
    · cases hAtom
    · exact stuck_atom hOpen' hBar' (map_eq_error_iff.1 hAtom) hPiece
  · obtain ⟨ch, text, hTakes⟩ := takesPiece_of_piece hBar' hOpen' hPiece
    exact stuck_quantifier hOpen' hPiece hTakes (map_eq_error_iff.1 hAfter)

/-! ## A course to where something is refused -/

section

variable {p q : Place} {f : Failure} {text w : List Char}

/-- Only an empty text leaves it to what comes after it whether a question mark is first. -/
theorem Stuck.mark {v : List Char} (h : Stuck p f w t) (hMark : w ++ u = '?' :: v) : w = [] := by
  cases w with
  | nil => rfl
  | cons ch w =>
    obtain ⟨rfl, -⟩ := List.cons.inj hMark
    exact absurd rfl (h.starts w)

/-- What is read before something is refused is read to the end, once what is open is closed. -/
theorem Course.accepted (hCourse : Course q p text) (hStuck : Stuck p f w t) :
    (q.withRest
      (text ++ w ++ ((Lexis.plain q.openGroups).across (text ++ w)).closers)).Accepted := by
  rw [Lexis.across_append, hCourse.lexis]
  have hReplaces := ((Lexis.plain p.openGroups).across w).replaces_closers t
  refine (hCourse.again w t _ hStuck.rest hReplaces fun before depth _ _ v hMark => ?_).accepted
    hStuck.mends
  obtain rfl := hStuck.mark hMark
  rcases Lexis.closers_head _ hMark with h | h <;> cases h

/-- A character that is refused is refused whatever comes after it. -/
theorem Course.refused (hCourse : Course q p text) (hStuck : Stuck p f w (ch :: s))
    (hCause : f.cause = .unsupportedSyntax) (hLone : ¬ (ch = '\\' ∧ s = []))
    (hMark : ∀ before depth, text ++ w = before ++ ['('] →
      (Lexis.plain q.openGroups).across before = .plain depth → ch ≠ '?') (u : List Char) :
    (q.withRest (text ++ w ++ ch :: u)).Refused .unsupportedSyntax f.position := by
  obtain ⟨hSign, hAgain⟩ := hStuck.again hCause ch s rfl hLone
  obtain ⟨f', hError, hCause', hPosition⟩ := hAgain u
  have hLeads : (q.withRest (text ++ w ++ ch :: u)).Leads (p.withRest (w ++ ch :: u)) := by
    refine hCourse.again w _ _ hStuck.rest (replaces_sign hSign s u) ?_
    intro before depth hText hBefore v hQuestion
    obtain rfl := hStuck.mark hQuestion
    obtain ⟨rfl, -⟩ := List.cons.inj hQuestion
    exact hMark before depth (by rw [List.append_nil, hText]) hBefore rfl
  have hDone : ¬ (p.withRest (w ++ ch :: u)).Done := by
    rintro ⟨-, hEnd⟩
    exact List.append_ne_nil_of_right_ne_nil w (List.cons_ne_nil ch u) hEnd
  exact ⟨_, f', hLeads, hDone, hError, hCause', hPosition⟩

end

end Place

/-! ## Whole patterns -/

/-- The error stands at the exact place: it is between `before` and `rest`; with what is open there
closed, `before` is a pattern; and no pattern has `before` and then the character that is there, if
it is the syntax that is refused.  Two characters are excepted: a backslash at the end, behind which
a character is missing, and a question mark directly behind the parenthesis of a group, behind which
a colon is missing. -/
structure CompileError.ExactAt (e : CompileError) (pattern : String) (before rest : List Char) :
    Prop where
  split : pattern.toList = before ++ rest
  position : e.position = byteLength before
  mends : ∃ r p, ({ pattern := String.ofList (before ++ (Lexis.after before).closers) } :
    Parser).parse = .ok (.ok r, p)
  again : e.cause = .unsupportedSyntax → ∀ ch s, rest = ch :: s → ¬ (ch = '\\' ∧ s = []) →
    ¬ (ch = '?' ∧ Lexis.EndsOpening before) → ∀ (other : String) (s' : List Char),
      other.toList = before ++ ch :: s' → ∃ e' p, ({ pattern := other } : Parser).parse =
        .ok (.error e', p) ∧ e'.cause = .unsupportedSyntax ∧ e'.position = e.position

theorem Parser.parse_new_error_iff {pattern : String} {e : CompileError} :
    (∃ p, ({ pattern } : Parser).parse = .ok (.error e, p)) ↔
      BacktrackRegex.parse pattern = .error e := by
  obtain ⟨p, hNew⟩ := Parser.parse_new pattern
  rw [hNew]
  simp

/-- Every compile error stands at the exact place. -/
theorem parse_error_exact {pattern : String} {e : CompileError} {p : Parser}
    (h : ({ pattern } : Parser).parse = .ok (.error e, p)) :
    ∃ before rest, e.ExactAt pattern before rest := by
  obtain ⟨place, f, hLeads, -, hError, hCause, hPosition⟩ :=
    parse_error_iff.1 ⟨e, Parser.parse_new_error_iff.1 ⟨p, h⟩, rfl, rfl⟩
  obtain ⟨text, hCourse⟩ := hLeads.course
  obtain ⟨w, t, hStuck⟩ := Place.stuck_of_advance hError
  refine ⟨text ++ w, t, ?_, ?_, ?_, ?_⟩
  · rw [List.append_assoc, ← hStuck.rest]
    exact hCourse.passes.rest
  · have hPos : place.cursor.pos = byteLength text := hCourse.passes.pos.trans (Nat.zero_add _)
    rw [← hPosition, hStuck.position, hPos, byteLength_append]
  · obtain ⟨r, hParse⟩ :
        ∃ r, parse (String.ofList (text ++ w ++ (Lexis.after (text ++ w)).closers)) = .ok r := by
      rw [parse_isOk_iff, String.toList_ofList]
      exact hCourse.accepted hStuck
    exact ⟨r, Parser.parse_new_eq_ok_iff.2 hParse⟩
  · rintro hUnsupported ch s rfl hLone hMark other u hOther
    have hRefused : (Place.start other.toList).Refused .unsupportedSyntax e.position := by
      rw [hOther, ← hPosition]
      refine hCourse.refused hStuck (hCause.trans hUnsupported) hLone ?_ u
      intro before depth hText hBefore hQuestion
      exact hMark ⟨hQuestion, before, depth, hText, hBefore⟩
    obtain ⟨e', hParse, hCause', hPosition'⟩ := parse_error_iff.2 hRefused
    obtain ⟨p', hNew⟩ := Parser.parse_new_error_iff.2 hParse
    exact ⟨e', p', hNew, hCause', hPosition'⟩

/-- The second caret of `é(a[^b^c]` is refused, at byte seven, in a class inside a group. -/
theorem parse_error_exact_caret :
    ∃ e p, ({ pattern := "é(a[^b^c]" } : Parser).parse = .ok (.error e, p) ∧
      e.cause = .unsupportedSyntax ∧ e.position = 7 ∧
      ∃ before rest, e.ExactAt "é(a[^b^c]" before rest := by
  obtain ⟨p, hNew⟩ := Parser.parse_new "é(a[^b^c]"
  have hComputed : (parse "é(a[^b^c]").map (fun _ => ()) =
      .error ⟨.unsupportedSyntax, "é(a[^b^c]", 7⟩ := by
    decide +kernel
  rw [map_eq_error_iff.1 hComputed] at hNew
  exact ⟨_, p, hNew, rfl, rfl, parse_error_exact hNew⟩

end BacktrackRegex
