import BacktrackRegex.Proofs.Pattern.Position
import BacktrackRegex.Proofs.Pattern.Translation

/-!
# Reading again after a failure

A parser that fails inside groups counts these as open ever after.  When it is moved back to the
start of its pattern, it reads as if the pattern stood inside them: a parenthesis without an opening
one is no ordinary character any more, and fewer groups can be nested.  So it may fail earlier than
it did before, but never anywhere else.

* `Reading.extent`, `Cut` — how far a reading gets, and readings that get less far than another one;
* `readItems_cut` .. `readPattern_cut` — what groups that count as open do to each reader;
* `readPattern_openGroups_le`, `readPattern_unclosed` — how many groups a failure leaves open;
* `Parser.attempt`, `Parser.attempt_spec` — reading from the start over and over again.
-/

set_option autoImplicit false

namespace BacktrackRegex

variable {c c' : Cursor} {s : List Char}

/-! ## How far a reading gets -/

/-- Where a reading goes on, or where it is refused. -/
def Reading.extent {α : Type} : Reading α → Nat
  | .error f => f.position
  | .ok (_, c) => c.pos

theorem Cursor.pos_lt_next {ch : Char} (hRest : c.rest = ch :: s) : c.pos < c.next.pos := by
  rw [next_of_cons hRest]
  exact Nat.lt_add_of_pos_right ch.utf8Size_pos

theorem Cursor.Reaches.pos_le (h : c.Reaches c') : c.pos ≤ c'.pos := by
  obtain ⟨read, -, hPos⟩ := h
  rw [hPos]
  exact Nat.le_add_right _ _

section

variable {α β : Type} {result cut : Reading α}

theorem Located.le_extent (h : Located c result) : c.pos ≤ Reading.extent result := by
  cases h with
  | ok h => exact h.pos_le
  | error h =>
    obtain ⟨-, before, -, -, hPosition, -⟩ := h
    show c.pos ≤ Failure.position _
    rw [hPosition]
    exact Nat.le_add_right _ _

theorem Reading.extent_le_bind {k : α × Cursor → Reading β} (h : ∀ a c, Located c (k (a, c))) :
    Reading.extent result ≤ Reading.extent (result.bind k) := by
  cases result with
  | error f => exact Nat.le_refl _
  | ok result => exact (h result.1 result.2).le_extent

theorem Reading.extent_map (g : α → β) (result : Reading α) :
    Reading.extent (result.map fun (a, c) => (g a, c)) = Reading.extent result := by
  cases result <;> rfl

/-- What can become of a reading inside groups that are only taken to be open: it is the same, or
something is refused before it gets as far, or, if `early`, it ends before that at a parenthesis. -/
inductive Cut (early : Bool) (result : Reading α) : Reading α → Prop
  | same : Cut early result result
  | refused {f : Failure} (hCause : f.cause = .unsupportedSyntax)
    (h : f.position < Reading.extent result) : Cut early result (.error f)
  | ended {a : α} {c : Cursor} {s : List Char} (hEarly : early = true) (hRest : c.rest = ')' :: s)
    (h : c.pos < Reading.extent result) : Cut early result (.ok (a, c))

namespace Cut

variable {early inner : Bool}

theorem map (h : Cut early result cut) (g : α → β) :
    Cut early (result.map fun (a, c) => (g a, c)) (cut.map fun (a, c) => (g a, c)) := by
  cases h with
  | same => exact .same
  | refused hCause h => exact .refused hCause (Reading.extent_map g result ▸ h)
  | ended hEarly hRest h => exact .ended hEarly hRest (Reading.extent_map g result ▸ h)

/-- Readings one after the other.  Where the first one ends early, the second one reads nothing. -/
theorem bind {k k' : α × Cursor → Reading β} (h : Cut inner result cut)
    (hInner : inner = true → early = true) (hLocated : ∀ a c, Located c (k (a, c)))
    (hNext : ∀ a c, result = .ok (a, c) → Cut early (k (a, c)) (k' (a, c)))
    (hEnded : ∀ a c s, inner = true → c.rest = ')' :: s → ∃ b, k' (a, c) = .ok (b, c)) :
    Cut early (result.bind k) (cut.bind k') := by
  have hExtent : Reading.extent result ≤ Reading.extent (result.bind k) :=
    Reading.extent_le_bind hLocated
  cases h with
  | same =>
    cases result with
    | error f => exact .same
    | ok result => exact hNext result.1 result.2 rfl
  | refused hCause h => exact .refused hCause (Nat.lt_of_lt_of_le h hExtent)
  | @ended a c s hEarly hRest h =>
    obtain ⟨b, hNothing⟩ := hEnded a c s hEarly hRest
    show Cut early _ (k' (a, c))
    rw [hNothing]
    exact .ended (hInner hEarly) hRest (Nat.lt_of_lt_of_le h hExtent)

end Cut

end

/-! ## What groups that count as open do to a reader -/

/-- The second reader of atoms reads the same as the first one, or refuses something earlier. -/
def Consumer.Cuts (atom atom' : Consumer Regex) : Prop :=
  ∀ c, Cut false (atom.read c) (atom'.read c)

theorem endsSequence_or {nested early : Bool} (h : endsSequence nested s = true) :
    endsSequence (nested || early) s = true := by
  cases s with
  | nil => rfl
  | cons ch s =>
    simp only [endsSequence, Bool.or_eq_true, Bool.and_eq_true] at h ⊢
    rcases h with hBar | ⟨hClose, hNested⟩
    · exact .inl hBar
    · exact .inr ⟨hClose, .inl hNested⟩

/-- A sequence that has no reason to end ends early at a closing parenthesis only. -/
theorem close_of_endsSequence {nested early : Bool} (h : endsSequence nested s = false)
    (hEarly : endsSequence (nested || early) s = true) : early = true ∧ ∃ t, s = ')' :: t := by
  cases s with
  | nil => cases h
  | cons ch t =>
    simp only [endsSequence, Bool.or_eq_false_iff] at h
    simp only [endsSequence, h.1, Bool.false_or, Bool.and_eq_true, beq_iff_eq] at hEarly
    obtain ⟨rfl, hNested⟩ := hEarly
    have hOpen : nested = false := by simpa using h.2
    simp only [hOpen, Bool.false_or] at hNested
    exact ⟨hNested, t, rfl⟩

theorem readAtom_close (levels : Nat) (hRest : c.rest = ')' :: s) :
    (readAtom levels).read c = .ok (.leaf (.only ')'), c.next) := by
  cases levels with
  | zero => exact readAtomBody_plain hRest (by decide)
  | succ levels => exact readAtomBody_plain hRest (by decide)

section

variable {nested early : Bool} {levels levels' : Nat}

/-- The items of a sequence are read at least as far as its first atom. -/
theorem readItems_atom_le {r : Regex} {c₁ : Cursor} (hGoes : endsSequence nested c.rest = false)
    (hFirst : (readAtom levels).read c = .ok (r, c₁)) :
    c₁.pos ≤ Reading.extent (readItems nested (readAtom levels) c) := by
  rw [readItems_of_goes hGoes, hFirst]
  apply Located.le_extent
  exact (readQuantifier_located c₁).bind fun q c₂ _ =>
    (readItems_located (readAtom_locates levels) c₂).map ((r, q) :: ·)

theorem readItems_cut (hAtom : (readAtom levels).Cuts (readAtom levels')) (c : Cursor) :
    Cut early (readItems nested (readAtom levels) c)
      (readItems (nested || early) (readAtom levels') c) := by
  induction c using readItems_induction nested (readAtom levels) with
  | ends c hEnds =>
    rw [readItems, if_pos hEnds, readItems, if_pos (endsSequence_or hEnds)]
    exact .same
  | goes c hGoes ih =>
    cases hGoes' : endsSequence (nested || early) c.rest with
    | true =>
      -- The parenthesis is an ordinary character to the one reading and ends the other.
      obtain ⟨hEarly, s, hRest⟩ := close_of_endsSequence hGoes hGoes'
      have hFar := readItems_atom_le hGoes (readAtom_close levels hRest)
      rw [readItems.eq_def (nested || early), if_pos hGoes']
      exact .ended hEarly hRest (Nat.lt_of_lt_of_le (Cursor.pos_lt_next hRest) hFar)
    | false =>
      rw [readItems_of_goes hGoes, readItems_of_goes hGoes']
      refine (hAtom c).bind (by simp) ?_ (fun r c₁ hFirst => ?_) (by simp)
      · intro r c₁
        exact (readQuantifier_located c₁).bind fun q c₂ _ =>
          (readItems_located (readAtom_locates levels) c₂).map ((r, q) :: ·)
      have hSame : Cut false (readQuantifier c₁) (readQuantifier c₁) := .same
      refine hSame.bind (by simp) ?_ (fun q c₂ hQuantifier => ?_) (by simp)
      · intro q c₂
        exact (readItems_located (readAtom_locates levels) c₂).map ((r, q) :: ·)
      · exact (ih r c₁ q c₂ hFirst hQuantifier).map ((r, q) :: ·)

theorem readSequence_cut (hAtom : (readAtom levels).Cuts (readAtom levels')) (c : Cursor) :
    Cut early (readSequence nested (readAtom levels) c)
      (readSequence (nested || early) (readAtom levels') c) := by
  rw [readSequence_eq, readSequence_eq]
  exact (readItems_cut hAtom c).map Regex.seq

theorem readBranches_cut (hAtom : (readAtom levels).Cuts (readAtom levels')) (c : Cursor) :
    Cut early (readBranches nested (readAtom levels) c)
      (readBranches (nested || early) (readAtom levels') c) := by
  induction c using readBranches_induction nested (readAtom levels) with
  | bare c hBare =>
    rw [readBranches_of_bare hBare, readBranches_of_bare hBare]
    exact .same
  | bar c s hRest ih =>
    rw [readBranches_of_bar hRest, readBranches_of_bar hRest]
    refine (readSequence_cut hAtom c.next).bind id ?_ (fun r c₁ hBranch => ?_) ?_
    · intro r c₁
      exact (readBranches_located (readAtom_locates levels) c₁).map (r :: ·)
    · exact (ih r c₁ hBranch).map (r :: ·)
    · intro r c₁ s _ hClose
      refine ⟨[r], ?_⟩
      dsimp only
      rw [readBranches_of_bare (by simp [hClose])]
      rfl

theorem readAlternation_cut (hAtom : (readAtom levels).Cuts (readAtom levels')) (c : Cursor) :
    Cut early (readAlternation nested (readAtom levels) c)
      (readAlternation (nested || early) (readAtom levels') c) := by
  rw [readAlternation_eq, readAlternation_eq]
  refine (readSequence_cut hAtom c).bind id ?_ (fun first c₁ _ => ?_) ?_
  · exact fun first c₁ =>
      (readBranches_located (readAtom_locates levels) c₁).map first.alternation
  · exact (readBranches_cut hAtom c₁).map first.alternation
  · intro first c₁ s _ hClose
    refine ⟨first, ?_⟩
    dsimp only
    rw [readBranches_of_bare (by simp [hClose])]
    rfl

/-- A group gets at least as far as its body. -/
theorem extent_le_readGroupBody (atom : Consumer Regex) (c : Cursor) :
    Reading.extent (readAlternation true atom (openGroup c).2) ≤
      Reading.extent (readGroupBody atom c) := by
  unfold readGroupBody
  cases readAlternation true atom (openGroup c).2 with
  | error f => exact Nat.le_refl _
  | ok result =>
    obtain ⟨body, c₁⟩ := result
    dsimp only
    split
    · exact c₁.reaches_next.pos_le
    · exact Nat.le_refl _

theorem readGroup_cuts (hAtom : (readAtom levels).Cuts (readAtom levels')) :
    (readGroup (readAtom levels)).Cuts (readGroup (readAtom levels')) := by
  intro c
  have hExtent := extent_le_readGroupBody (readAtom levels) c
  have hBody : Cut false (readAlternation true (readAtom levels) (openGroup c).2)
      (readAlternation true (readAtom levels') (openGroup c).2) :=
    readAlternation_cut hAtom (openGroup c).2
  change Cut false (readGroupBody (readAtom levels) c) (readGroupBody (readAtom levels') c)
  generalize hCut : readAlternation true (readAtom levels') (openGroup c).2 = cut at hBody
  cases hBody with
  | same =>
    have hSame : readGroupBody (readAtom levels') c = readGroupBody (readAtom levels) c := by
      unfold readGroupBody
      rw [hCut]
    rw [hSame]
    exact .same
  | @refused f hCause h =>
    have hRefused : readGroupBody (readAtom levels') c =
        .error { f with openGroups := f.openGroups + 1 } := by
      unfold readGroupBody
      rw [hCut]
    rw [hRefused]
    exact .refused hCause (Nat.lt_of_lt_of_le h hExtent)
  | ended hEarly => cases hEarly

theorem readAtomWith_cuts {group group' : Consumer Regex}
    (hGroup : ∀ c s, c.rest = '(' :: s → Cut false (group.read c) (group'.read c)) :
    (readAtomWith group).Cuts (readAtomWith group') := by
  intro c
  change Cut false (readAtomBody group c) (readAtomBody group' c)
  unfold readAtomBody
  split
  case h_2 hRest => exact hGroup c _ hRest
  all_goals exact .same

/-- Where no more groups can be opened, a parenthesis is refused that opens one otherwise. -/
theorem refuse_cuts (hRest : c.rest = '(' :: s) :
    Cut false ((readGroup (readAtom levels)).read c) (Consumer.refuse.read c) := by
  have hBody : Located (openGroup c).2 (readAlternation true (readAtom levels) (openGroup c).2) :=
    readAlternation_located (readAtom_locates levels) (openGroup c).2
  have hOpen : c.pos < (openGroup c).2.pos := by
    have hNext := Cursor.pos_lt_next hRest
    have := c.next.reaches_next.pos_le
    have := c.next.next.reaches_next.pos_le
    unfold openGroup
    split <;> dsimp only <;> omega
  exact .refused rfl (Nat.lt_of_lt_of_le hOpen
    (Nat.le_trans hBody.le_extent (extent_le_readGroupBody (readAtom levels) c)))

theorem readAtom_cuts (h : levels' ≤ levels) : (readAtom levels).Cuts (readAtom levels') := by
  induction levels' generalizing levels with
  | zero =>
    cases levels with
    | zero => exact fun c => .same
    | succ levels => exact readAtomWith_cuts fun c s hRest => refuse_cuts hRest
  | succ levels' ih =>
    cases levels with
    | zero => cases h
    | succ levels =>
      have hAtom := ih (Nat.le_of_succ_le_succ h)
      exact readAtomWith_cuts fun c s _ => readGroup_cuts hAtom c

end

/-- Inside groups that are taken to be open, a pattern is read as it is outside of them, or refused
before that reading gets to its end or fails. -/
theorem readPattern_cut (openGroups : Nat) (c : Cursor) :
    Cut false (readPattern 0 c) (readPattern openGroups c) := by
  cases openGroups with
  | zero => exact .same
  | succ n =>
    have hRegex : Cut true (readAlternation false (readAtom maxNesting) c)
        (readAlternation true (readAtom (maxNesting - (n + 1))) c) :=
      readAlternation_cut (readAtom_cuts (Nat.sub_le _ _)) c
    have hOutside : readPattern 0 c =
        (readAlternation false (readAtom maxNesting) c).bind atEnd := readPattern_eq 0 c
    have hInside : readPattern (n + 1) c =
        (readAlternation true (readAtom (maxNesting - (n + 1))) c).bind atEnd := by
      rw [readPattern_eq, decide_eq_true (Nat.succ_pos n)]
    have hExtent : Reading.extent (readAlternation false (readAtom maxNesting) c) ≤
        Reading.extent ((readAlternation false (readAtom maxNesting) c).bind atEnd) :=
      Reading.extent_le_bind atEnd_located
    rw [hOutside, hInside]
    generalize readAlternation true (readAtom (maxNesting - (n + 1))) c = cut at hRegex
    cases hRegex with
    | same => exact .same
    | refused hCause h => exact .refused hCause (Nat.lt_of_lt_of_le h hExtent)
    | @ended r c' s _ hClose h =>
      have hLeft : atEnd (r, c') = .error (.unsupported c'.pos c') := by
        simp [atEnd, hClose]
      show Cut false _ (atEnd (r, c'))
      rw [hLeft]
      exact .refused rfl (Nat.lt_of_lt_of_le h hExtent)

/-! ## How many groups can count as open -/

namespace Place

variable {p p' : Place}

theorem openGroups_le_of_piece {depth : Nat} (h : p.piece = .ok (depth, c)) :
    depth ≤ p.openGroups := by
  unfold piece at h
  split at h
  · cases h
    exact Nat.sub_le _ _
  · obtain ⟨atom, -, hPair⟩ := map_eq_ok_iff.1 h
    cases hPair
    exact Nat.le_refl _

theorem unclosed_le (p : Place) : p.unclosed ≤ p.openGroups := by
  unfold unclosed
  split
  · exact Nat.sub_le _ _
  · exact Nat.le_refl _
  · split
    · rename_i h
      exact openGroups_le_of_piece h
    · exact Nat.le_refl _

theorem openGroups_le_of_advance (h : p.advance = .ok p') (hLe : p.openGroups ≤ maxNesting) :
    p'.openGroups ≤ maxNesting := by
  unfold advance at h
  split at h
  · cases h
    exact hLe
  · split at h <;> cases h
    rename_i hDepth
    exact hDepth
  · obtain ⟨⟨depth, c⟩, hPiece, hAfter⟩ := bind_eq_ok_iff.1 h
    obtain ⟨quantifier, -, rfl⟩ := map_eq_ok_iff.1 hAfter
    exact Nat.le_trans (openGroups_le_of_piece hPiece) hLe

theorem Leads.openGroups_le (h : p.Leads p') (hLe : p.openGroups ≤ maxNesting) :
    p'.openGroups ≤ maxNesting := by
  induction h with
  | refl => exact hLe
  | tail _ hNext ih => exact openGroups_le_of_advance hNext ih

end Place

/-- A reading that fails inside `openGroups` groups: the places lead there, unless the pattern ends
too early. -/
theorem readPattern_fails {openGroups : Nat} {f : Failure}
    (h : readPattern openGroups c = .error f) :
    (⟨openGroups, c⟩ : Place).Fails openGroups f ∨ 0 < openGroups ∧ f.openGroups = 0 := by
  have hRegex := readPattern_tracked openGroups c
  rw [readPattern_eq] at h
  rcases bind_eq_error_iff.1 h with hError | ⟨⟨r, c'⟩, hOk, hLeft⟩
  · exact .inl (hRegex.fails hError)
  · dsimp only [atEnd] at hLeft
    split at hLeft <;> cases hLeft
    rename_i hRest
    rcases readAlternation_ends hOk with hEnd | ⟨hNested, -⟩
    · simp [hEnd] at hRest
    · exact .inr ⟨of_decide_eq_true hNested, rfl⟩

/-- Never more groups count as open than can be nested. -/
theorem readPattern_openGroups_le {openGroups : Nat} {f : Failure}
    (hOpen : openGroups ≤ maxNesting) (h : readPattern openGroups c = .error f) :
    openGroups + f.openGroups ≤ maxNesting := by
  rcases readPattern_fails h with hFails | ⟨-, hNone⟩
  · obtain ⟨p, -, hLeads, -, -, -, -, hUnclosed⟩ := hFails
    rw [← hUnclosed]
    exact Nat.le_trans p.unclosed_le (hLeads.openGroups_le hOpen)
  · rw [hNone]
    exact hOpen

/-- A reading that fails leaves those groups open that the text before the failure does. -/
theorem readPattern_unclosed {f : Failure} {pattern : List Char}
    (h : readPattern 0 ⟨pattern, 0, 0⟩ = .error f) :
    ∃ before rest, pattern = before ++ rest ∧ f.position = byteLength before ∧
      f.openGroups = (Lexis.after before).unclosed rest := by
  rcases readPattern_fails h with hFails | ⟨hNested, -⟩
  · obtain ⟨p, f', hLeads, -, hError, -, hPosition, hUnclosed⟩ := hFails
    obtain ⟨text, hCourse⟩ := hLeads.course
    obtain ⟨w, t, hStuck⟩ := Place.stuck_of_advance hError
    have hPos : p.cursor.pos = byteLength text := hCourse.passes.pos.trans (Nat.zero_add _)
    have hText : (Lexis.plain 0).across text = .plain p.openGroups := hCourse.lexis
    refine ⟨text ++ w, t, ?_, ?_, ?_⟩
    · rw [List.append_assoc, ← hStuck.rest]
      exact hCourse.passes.rest
    · rw [← hPosition, hStuck.position, hPos, byteLength_append]
    · rw [Lexis.after, Lexis.across_append, hText, ← hStuck.unclosed, hUnclosed, Nat.zero_add]
  · exact absurd hNested (Nat.lt_irrefl 0)

/-! ## One attempt after the other -/

namespace Parser

variable {p : Parser} {pattern : String} {e : CompileError} {f : Failure} {n : Nat}

/-- What a parser gives when it reads from the start of its pattern, after `n` attempts at that. -/
def attempt (pattern : String) : Nat → Except Fault (Except CompileError Regex × Parser)
  | 0 => ({ pattern } : Parser).parse
  | n + 1 => (attempt pattern n).bind fun (_, p) => (p.seek 0).parse

theorem attempt_succ {result : Except CompileError Regex}
    (h : attempt pattern n = .ok (result, p)) : attempt pattern (n + 1) = (p.seek 0).parse := by
  rw [attempt, h]
  rfl

/-- At the start of its pattern, a parser gives what is read there inside the groups that count as
open. -/
theorem parse_seek_zero (p : Parser) : (p.seek 0).parse =
    .ok ((p.seek 0).outcome (Reading.shift 0 p.nextId (Regex.renumber (p.nextId + ·))
      (readPattern p.openGroups ⟨p.pattern.toList, 0, 0⟩))) :=
  parse_eq [] p.pattern.toList rfl rfl

/-- A parser that fails at the start of its pattern keeps the groups open that were open there, and
those that the failure leaves open. -/
theorem parse_seek_zero_error (h : readPattern p.openGroups ⟨p.pattern.toList, 0, 0⟩ = .error f) :
    ∃ q, (p.seek 0).parse = .ok (.error (f.toCompileError p.pattern), q) ∧
      q.pattern = p.pattern ∧ q.openGroups = p.openGroups + f.openGroups := by
  rw [parse_seek_zero, h]
  refine ⟨((p.seek 0).outcome (.error (f.shift 0 p.nextId))).2, ?_, rfl, rfl⟩
  simp only [Reading.shift, outcome, Failure.toCompileError, Failure.shift, Nat.zero_add]
  rfl

/-- Where a pattern fails with `f` outside of all groups, it can fail with `f'` inside some: this is
the same failure, or something is refused before it. -/
def Recurs (f f' : Failure) : Prop :=
  f' = f ∨ f'.cause = .unsupportedSyntax ∧ f'.position < f.position

theorem exists_recurs (h : readPattern 0 ⟨pattern.toList, 0, 0⟩ = .error f) (openGroups : Nat) :
    ∃ f', readPattern openGroups ⟨pattern.toList, 0, 0⟩ = .error f' ∧ Recurs f f' := by
  have hCut := readPattern_cut openGroups ⟨pattern.toList, 0, 0⟩
  rw [h] at hCut
  generalize readPattern openGroups ⟨pattern.toList, 0, 0⟩ = cut at hCut
  cases hCut with
  | same => exact ⟨f, rfl, .inl rfl⟩
  | refused hCause h => exact ⟨_, rfl, .inr ⟨hCause, h⟩⟩
  | ended hEarly => cases hEarly

/-- Every attempt at a pattern that cannot be read fails. -/
theorem attempt_fails (h : readPattern 0 ⟨pattern.toList, 0, 0⟩ = .error f) (n : Nat) :
    ∃ f' q, attempt pattern n = .ok (.error (f'.toCompileError pattern), q) ∧ Recurs f f' ∧
      q.pattern = pattern ∧ q.openGroups ≤ maxNesting := by
  have hStep (p : Parser) (hPattern : p.pattern = pattern) (hOpen : p.openGroups ≤ maxNesting) :
      ∃ f' q, (p.seek 0).parse = .ok (.error (f'.toCompileError pattern), q) ∧ Recurs f f' ∧
        q.pattern = pattern ∧ q.openGroups ≤ maxNesting := by
    subst hPattern
    obtain ⟨f', hRead, hRecurs⟩ := exists_recurs h p.openGroups
    obtain ⟨q, hParse, hSame, hLeft⟩ := parse_seek_zero_error hRead
    exact ⟨f', q, hParse, hRecurs, hSame, hLeft ▸ readPattern_openGroups_le hOpen hRead⟩
  induction n with
  | zero => exact hStep { pattern } rfl (Nat.zero_le _)
  | succ n ih =>
    obtain ⟨f', q, hAttempt, -, hPattern, hOpen⟩ := ih
    rw [attempt_succ hAttempt]
    exact hStep q hPattern hOpen

/-- An attempt inside as many groups as the same failure has left open so far: if the failure leaves
none open, or comes up again, then the attempt gives the same error, and leaves more groups open. -/
theorem parse_again (h : readPattern 0 ⟨pattern.toList, 0, 0⟩ = .error f)
    (hPattern : p.pattern = pattern) (hOpen : p.openGroups = n * f.openGroups)
    (hSame : f.openGroups = 0 ∨
      ∃ q, (p.seek 0).parse = .ok (.error (f.toCompileError pattern), q)) :
    ∃ q, (p.seek 0).parse = .ok (.error (f.toCompileError pattern), q) ∧ q.pattern = pattern ∧
      q.openGroups = (n + 1) * f.openGroups := by
  subst hPattern
  obtain ⟨f', hRead, hRecurs⟩ := exists_recurs h p.openGroups
  obtain ⟨q, hParse, hPattern, hLeft⟩ := parse_seek_zero_error hRead
  have hFailure : f' = f := by
    rcases hSame with hNone | ⟨q', hParse'⟩
    · rw [hOpen, hNone, Nat.mul_zero, h] at hRead
      exact (Except.error.inj hRead).symm
    · have hError := hParse.symm.trans hParse'
      simp only [Except.ok.injEq, Prod.mk.injEq, Except.error.injEq, Failure.toCompileError,
        CompileError.mk.injEq] at hError
      have hPosition : f'.position = f.position := hError.1.2.2
      rcases hRecurs with hFailure | ⟨-, hEarlier⟩
      · exact hFailure
      · omega
  subst hFailure
  exact ⟨q, hParse, hPattern, by rw [hLeft, hOpen, Nat.succ_mul]⟩

/-- As long as the same error comes up, every attempt leaves as many more groups open. -/
theorem attempt_again (h : readPattern 0 ⟨pattern.toList, 0, 0⟩ = .error f)
    (hSame : f.openGroups = 0 ∨
      ∀ n, ∃ q, attempt pattern n = .ok (.error (f.toCompileError pattern), q)) (n : Nat) :
    ∃ q, attempt pattern n = .ok (.error (f.toCompileError pattern), q) ∧ q.pattern = pattern ∧
      q.openGroups = (n + 1) * f.openGroups := by
  induction n with
  | zero =>
    exact parse_again (p := { pattern }) h rfl (Nat.zero_mul _).symm (hSame.imp_right fun h => h 0)
  | succ n ih =>
    obtain ⟨q, hAttempt, hPattern, hLeft⟩ := ih
    have hNext := hSame.imp_right fun h => h (n + 1)
    rw [attempt_succ hAttempt] at hNext ⊢
    exact parse_again h hPattern hLeft hNext

/-- All attempts give the same error exactly if the first one leaves no groups open: otherwise more
and more would count as open. -/
theorem attempts_agree_iff (h : readPattern 0 ⟨pattern.toList, 0, 0⟩ = .error f) :
    (∀ n, ∃ q, attempt pattern n = .ok (.error (f.toCompileError pattern), q)) ↔
      f.openGroups = 0 := by
  constructor
  · intro hAll
    obtain ⟨q, hAttempt, -, hLeft⟩ := attempt_again h (.inr hAll) maxNesting
    obtain ⟨f', q', hAttempt', -, -, hOpen⟩ := attempt_fails h maxNesting
    have hParser : q = q' := by
      have hResult := hAttempt.symm.trans hAttempt'
      simp only [Except.ok.injEq, Prod.mk.injEq] at hResult
      exact hResult.2
    rw [← hParser, hLeft] at hOpen
    by_contra hSome
    have hMore : maxNesting + 1 ≤ (maxNesting + 1) * f.openGroups :=
      Nat.le_mul_of_pos_right _ (Nat.pos_of_ne_zero hSome)
    omega
  · intro hNone n
    obtain ⟨q, hAttempt, -⟩ := attempt_again h (.inl hNone) n
    exact ⟨q, hAttempt⟩

/-- An error is known from the answer without the regexes, which cannot be compared. -/
theorem eq_error_of_map {answer : Except Fault (Except CompileError Regex × Parser)}
    (h : answer.map (fun result => (result.1.map fun _ => (), result.2)) = .ok (.error e, p)) :
    answer = .ok (.error e, p) := by
  obtain ⟨⟨result, q⟩, rfl, hResult⟩ := map_eq_ok_iff.1 h
  obtain ⟨hError, rfl⟩ := Prod.mk.inj hResult
  exact congrArg (fun r => Except.ok (r, q)) (map_eq_error_iff.1 hError)

/-- A failed reading cannot in general be repeated.  What it leaves open are the groups around the
place of its error, but for the innermost one if only the closing parenthesis of this is missing.
Reading from the start gives the same error over and over again exactly if no group is left open.
Otherwise some attempt fails earlier; none fails later or comes to anything but an error. -/
theorem attempt_spec {e : CompileError} (h : ({ pattern } : Parser).parse = .ok (.error e, p)) :
    ∃ before rest, pattern.toList = before ++ rest ∧ e.position = byteLength before ∧
      p.openGroups = (Lexis.after before).unclosed rest ∧
      ((∀ n, ∃ q, attempt pattern n = .ok (.error e, q)) ↔
        (Lexis.after before).unclosed rest = 0) ∧
      ∀ n, ∃ e' q, attempt pattern n = .ok (.error e', q) ∧
        (e' = e ∨ e'.cause = .unsupportedSyntax ∧ e'.position < e.position) := by
  cases hRead : readPattern 0 ⟨pattern.toList, 0, 0⟩ with
  | ok result =>
    have hNew : ({ pattern } : Parser).parse = _ := parse_seek_zero { pattern }
    rw [hRead] at hNew
    cases h.symm.trans hNew
  | error f =>
    obtain ⟨q, hNew, -, hLeft⟩ := parse_seek_zero_error (p := { pattern }) hRead
    have hFirst : f.toCompileError pattern = e ∧ q = p := by
      have hResult := Except.ok.inj (hNew.symm.trans h)
      simpa only [Prod.mk.injEq, Except.error.injEq] using hResult
    obtain ⟨rfl, rfl⟩ := hFirst
    have hOpen : q.openGroups = f.openGroups := hLeft.trans (Nat.zero_add _)
    obtain ⟨before, rest, hSplit, hPosition, hUnclosed⟩ := readPattern_unclosed hRead
    refine ⟨before, rest, hSplit, hPosition, hOpen.trans hUnclosed, ?_, fun n => ?_⟩
    · rw [← hUnclosed]
      exact attempts_agree_iff hRead
    · obtain ⟨f', q', hAttempt, hRecurs, -⟩ := attempt_fails hRead n
      refine ⟨_, q', hAttempt, hRecurs.imp (fun hSame => ?_) id⟩
      rw [hSame]

/-- The error in `)(*` is at byte two, inside the group, which counts as open after it. -/
theorem attempt_spec_unmatched :
    ∃ e p, ({ pattern := ")(*" } : Parser).parse = .ok (.error e, p) ∧ p.openGroups = 1 ∧
      ∃ before rest, ")(*".toList = before ++ rest ∧ e.position = byteLength before ∧
        p.openGroups = (Lexis.after before).unclosed rest ∧
        ((∀ n, ∃ q, attempt ")(*" n = .ok (.error e, q)) ↔
          (Lexis.after before).unclosed rest = 0) ∧
        ∀ n, ∃ e' q, attempt ")(*" n = .ok (.error e', q) ∧
          (e' = e ∨ e'.cause = .unsupportedSyntax ∧ e'.position < e.position) := by
  have hFirst : ({ pattern := ")(*" } : Parser).parse =
      .ok (.error ⟨.unsupportedSyntax, ")(*", 2⟩, ⟨")(*", 2, 2, 1⟩) :=
    eq_error_of_map (by decide +kernel)
  exact ⟨_, _, hFirst, rfl, attempt_spec hFirst⟩

/-- Moved back to the start of `)(*` after its error at byte two, a parser gives another error: the
parenthesis at byte zero would close the group, and more comes after it. -/
theorem attempt_unmatched_differs :
    ∃ p q, ({ pattern := ")(*" } : Parser).parse =
        .ok (.error ⟨.unsupportedSyntax, ")(*", 2⟩, p) ∧
      (p.seek 0).parse = .ok (.error ⟨.unsupportedSyntax, ")(*", 0⟩, q) :=
  ⟨⟨")(*", 2, 2, 1⟩, ⟨")(*", 0, 2, 1⟩, eq_error_of_map (by decide +kernel),
    eq_error_of_map (by decide +kernel)⟩

end Parser

end BacktrackRegex
