import BacktrackRegex.Proofs.Pattern.Pieces
import Mathlib.Logic.Relation

/-!
# The course of a reading

The readers of patterns call one another.  What they go through can also be told without that, as
one place after another: a place lies in so many groups, and the piece that stands there, together
with its quantifier, leads to the next place.  A pattern is read if the places lead to its end
outside all groups, and refused for what is refused at the place where they end otherwise.

* `Place.advance` — from one place to the next; `Place.Leads` — any number of times;
* `Place.Accepted`, `Place.Refused` — the two ways in which the places end, of which there is one;
* `Place.unclosed`, `Place.Fails` — the groups that a failure leaves open;
* `Tracked` — a reading that goes through these places;
* `Parser.parse_leads` — the groups that count as open after a reading that succeeds;
* `parse_isOk_iff`, `parse_error_iff` — the outcome of reading a pattern.
-/

set_option autoImplicit false

namespace BacktrackRegex

/-- A place between two pieces of a pattern: the number of groups it lies in, and the cursor. -/
structure Place where
  openGroups : Nat
  cursor : Cursor

namespace Place

/-- A piece that can carry a quantifier and opens no group: the parenthesis that closes the
innermost group, or an atom.  The number is that of the groups that are open after it. -/
def piece (p : Place) : Reading Nat :=
  if 0 < p.openGroups ∧ p.cursor.rest.head? = some ')' then .ok (p.openGroups - 1, p.cursor.next)
  else (readAtomBody .refuse p.cursor).map fun atom => (p.openGroups, atom.2)

/-- The place after a piece and its quantifier. -/
def afterPiece : Nat × Cursor → Except Failure Place
  | (depth, c) => (readQuantifier c).map fun quantifier => ⟨depth, quantifier.2⟩

/-- The next place, after a bar, the opening of a group, or a piece with its quantifier. -/
def advance (p : Place) : Except Failure Place :=
  match p.cursor.rest with
  | '|' :: _ => .ok ⟨p.openGroups, p.cursor.next⟩
  | '(' :: _ =>
    if p.openGroups < maxNesting then .ok ⟨p.openGroups + 1, (openGroup p.cursor).2⟩
    else .error (.unsupported p.cursor.pos p.cursor)
  | _ => p.piece.bind afterPiece

/-- The places lead from one to another. -/
def Leads : Place → Place → Prop := Relation.ReflTransGen fun p p' => p.advance = .ok p'

/-- The end of a pattern, outside all groups. -/
def Done (p : Place) : Prop := p.openGroups = 0 ∧ p.cursor.rest = []

/-- The places lead to the end. -/
def Accepted (p : Place) : Prop := ∃ p', p.Leads p' ∧ p'.Done

/-- The places lead to one, not the end, where something is refused. -/
def Refused (p : Place) (cause : CompileCause) (position : Nat) : Prop :=
  ∃ p' f, p.Leads p' ∧ ¬ p'.Done ∧ p'.advance = .error f ∧ f.cause = cause ∧ f.position = position

/-- The groups that count as open when reading fails at the place: at the end of the pattern the
innermost one counts as closed, and so does one whose parenthesis comes before a quantifier that is
refused. -/
def unclosed (p : Place) : Nat :=
  match p.cursor.rest with
  | [] => p.openGroups - 1
  | '(' :: _ => p.openGroups
  | _ =>
    match p.piece with
    | .ok (depth, _) => depth
    | .error _ => p.openGroups

/-- The places lead to one, not the end, where reading fails with `f`; the groups that count as open
there are `depth` and those that `f` leaves open. -/
def Fails (p : Place) (depth : Nat) (f : Failure) : Prop :=
  ∃ p' f', p.Leads p' ∧ ¬ p'.Done ∧ p'.advance = .error f' ∧ f'.cause = f.cause ∧
    f'.position = f.position ∧ p'.unclosed = depth + f.openGroups

variable {p p' p'' : Place}

theorem Leads.refl (p : Place) : p.Leads p := Relation.ReflTransGen.refl

theorem Leads.trans (h : p.Leads p') (h' : p'.Leads p'') : p.Leads p'' :=
  Relation.ReflTransGen.trans h h'

theorem leads_of_advance (h : p.advance = .ok p') : p.Leads p' := Relation.ReflTransGen.single h

theorem Leads.accepted (h : p.Leads p') (hAccepted : p'.Accepted) : p.Accepted := by
  obtain ⟨p'', hLeads, hDone⟩ := hAccepted
  exact ⟨p'', h.trans hLeads, hDone⟩

theorem Fails.refused {depth : Nat} {f : Failure} (h : p.Fails depth f) :
    p.Refused f.cause f.position := by
  obtain ⟨p', f', hLeads, hDone, hError, hCause, hPosition, -⟩ := h
  exact ⟨p', f', hLeads, hDone, hError, hCause, hPosition⟩

theorem Leads.fails {depth : Nat} {f : Failure} (h : p.Leads p') (hFails : p'.Fails depth f) :
    p.Fails depth f := by
  obtain ⟨p'', f', hLeads, hFails⟩ := hFails
  exact ⟨p'', f', h.trans hLeads, hFails⟩

theorem fails_of_advance {depth : Nat} {f : Failure} (hDone : ¬ p.Done) (h : p.advance = .error f)
    (hUnclosed : p.unclosed = depth + f.openGroups) : p.Fails depth f :=
  ⟨p, f, .refl p, hDone, h, rfl, rfl, hUnclosed⟩

/-- At the end of a pattern there is no next place. -/
theorem advance_of_nil (h : p.cursor.rest = []) :
    p.advance = .error (.unsupported p.cursor.pos p.cursor) := by
  have hPiece : p.piece = .error (.unsupported p.cursor.pos p.cursor) := by
    simp [piece, readAtomBody, h, Except.map]
  simp only [advance, h, hPiece, Except.bind]

/-- From one place there is only one way. -/
theorem Leads.comparable (h : p.Leads p') (h' : p.Leads p'') : p'.Leads p'' ∨ p''.Leads p' :=
  Relation.ReflTransGen.total_of_right_unique
    (fun _ _ _ h h' => Except.ok.inj (h.symm.trans h')) h h'

theorem Leads.eq_of_error {f : Failure} (h : p.Leads p') (hError : p.advance = .error f) :
    p' = p := by
  rcases Relation.ReflTransGen.cases_head h with h | ⟨q, hNext, -⟩
  · exact h.symm
  · cases hError.symm.trans hNext

/-- All places that cannot be left and that one place leads to are the same. -/
theorem Leads.unique {f f' : Failure} (h : p.Leads p') (hError : p'.advance = .error f)
    (h' : p.Leads p'') (hError' : p''.advance = .error f') : p' = p'' := by
  rcases h.comparable h' with h | h
  · exact (h.eq_of_error hError).symm
  · exact h.eq_of_error hError'

theorem Refused.not_accepted {cause : CompileCause} {position : Nat}
    (h : p.Refused cause position) : ¬ p.Accepted := by
  rintro ⟨p'', hLeads', hDone'⟩
  obtain ⟨p', f, hLeads, hDone, hError, -⟩ := h
  rw [hLeads.unique hError hLeads' (advance_of_nil hDone'.2)] at hDone
  exact hDone hDone'

theorem Refused.unique {cause cause' : CompileCause} {position position' : Nat}
    (h : p.Refused cause position) (h' : p.Refused cause' position') :
    cause = cause' ∧ position = position' := by
  obtain ⟨p', f, hLeads, -, hError, rfl, rfl⟩ := h
  obtain ⟨p'', f', hLeads', -, hError', rfl, rfl⟩ := h'
  obtain rfl := hLeads.unique hError hLeads' hError'
  cases hError.symm.trans hError'
  exact ⟨rfl, rfl⟩

/-! ## One step -/

variable {c c' : Cursor} {depth : Nat} {s : List Char}

theorem advance_bar (h : c.rest = '|' :: s) (depth : Nat) :
    advance ⟨depth, c⟩ = .ok ⟨depth, c.next⟩ := by
  simp only [advance, h]

theorem advance_open (h : c.rest = '(' :: s) (hDepth : depth < maxNesting) :
    advance ⟨depth, c⟩ = .ok ⟨depth + 1, (openGroup c).2⟩ := by
  simp only [advance, h, if_pos hDepth]

theorem advance_tooDeep (h : c.rest = '(' :: s) (hDepth : maxNesting ≤ depth) :
    advance ⟨depth, c⟩ = .error (.unsupported c.pos c) := by
  simp only [advance, h, if_neg (Nat.not_lt.2 hDepth)]

theorem advance_piece (hBar : ∀ s, c.rest ≠ '|' :: s) (hOpen : ∀ s, c.rest ≠ '(' :: s)
    (depth : Nat) : advance ⟨depth, c⟩ = (piece ⟨depth, c⟩).bind afterPiece := by
  unfold advance
  split
  · rename_i h
    exact absurd h (hBar _)
  · rename_i h
    exact absurd h (hOpen _)
  · rfl

theorem piece_close (h : c.rest = ')' :: s) : piece ⟨depth + 1, c⟩ = .ok (depth, c.next) := by
  simp [piece, h]

theorem piece_atom (h : endsSequence (0 < depth) c.rest = false) :
    piece ⟨depth, c⟩ = (readAtomBody .refuse c).map fun atom => (depth, atom.2) := by
  have hClose : ¬ (0 < depth ∧ c.rest.head? = some ')') := by
    rintro ⟨hDepth, hHead⟩
    obtain ⟨s, hs⟩ := List.head?_eq_some_iff.1 hHead
    simp [hs, endsSequence, hDepth] at h
  simp only [piece, if_neg hClose]

/-- Where only the quantifier of a piece is refused, the groups that are open after the piece count
as open. -/
theorem unclosed_of_piece {depth' : Nat} (hOpen : ∀ s, c.rest ≠ '(' :: s) (hEnd : c.rest ≠ [])
    (hPiece : piece ⟨depth, c⟩ = .ok (depth', c')) : unclosed ⟨depth, c⟩ = depth' := by
  unfold unclosed
  split
  · contradiction
  · rename_i h
    exact absurd h (hOpen _)
  · rw [hPiece]

/-- Where the piece is refused, all groups count as open. -/
theorem unclosed_of_piece_error {f : Failure} (hEnd : c.rest ≠ [])
    (hPiece : piece ⟨depth, c⟩ = .error f) : unclosed ⟨depth, c⟩ = depth := by
  unfold unclosed
  split
  · contradiction
  · rfl
  · rw [hPiece]

end Place

open Place

variable {c c' : Cursor} {depth : Nat} {s : List Char}

/-! ## Failures outside groups -/

theorem readNumber_openGroups {f : Failure} (h : readNumber c = .error f) : f.openGroups = 0 := by
  unfold readNumber at h
  split at h
  · cases h
  · split at h <;> cases h
    rfl

theorem readBraces_openGroups {f : Failure} (h : readBraces c = .error f) : f.openGroups = 0 := by
  unfold readBraces at h
  split at h
  · rename_i hMin
    cases h
    exact readNumber_openGroups hMin
  · cases h
  · split at h
    · rename_i hMax
      cases h
      obtain ⟨-, -, hUpper⟩ := readUpperBound_error hMax
      exact readNumber_openGroups hUpper
    · split at h
      · split at h <;> cases h
        rfl
      · cases h

theorem readQuantifier_openGroups {f : Failure} (h : readQuantifier c = .error f) :
    f.openGroups = 0 := by
  unfold readQuantifier at h
  split at h
  case h_4 => exact readBraces_openGroups h
  all_goals cases h

theorem readMembers_openGroups {nextId pos : Nat} {members rest : List Char} {f : Failure}
    (h : readMembers nextId pos members rest = .error f) : f.openGroups = 0 := by
  fun_induction readMembers nextId pos members rest with
  | case1 => cases h; rfl
  | case2 => cases h
  | case3 => cases h; rfl
  | case4 pos members ch rest ih => exact ih h
  | case5 => cases h; rfl
  | case6 pos members ch rest _ _ _ _ ih => exact ih h

/-- Only a group that is read leaves groups open. -/
theorem readAtomBody_openGroups {f : Failure} (h : readAtomBody .refuse c = .error f) :
    f.openGroups = 0 := by
  unfold readAtomBody at h
  split at h
  · cases h
    rfl
  · cases h
    rfl
  · rw [readClass_eq] at h
    exact readMembers_openGroups (map_eq_error_iff.1 h)
  · unfold readEscape at h
    split at h <;> cases h
    rfl
  · cases h
  · split at h <;> cases h
    rfl

/-! ## Where sequences and alternations end -/

theorem readItems_ends {nested : Bool} {atom : Consumer Regex} {items : List (Regex × Quantifier)}
    (h : readItems nested atom c = .ok (items, c')) : endsSequence nested c'.rest = true := by
  fun_induction readItems nested atom c generalizing items c' with
  | case1 c hEnds => cases h; exact hEnds
  | case2 => cases h
  | case3 => cases h
  | case4 => cases h
  | case5 c _ r c₁ hFirst q c₂ hQuantifier items c₃ hItems ih =>
    cases h
    exact ih hItems

theorem readSequence_ends {nested : Bool} {atom : Consumer Regex} {r : Regex}
    (h : readSequence nested atom c = .ok (r, c')) : endsSequence nested c'.rest = true := by
  unfold readSequence at h
  split at h
  · cases h
  · rename_i hItems
    cases h
    exact readItems_ends hItems

theorem readBranches_ends {nested : Bool} {atom : Consumer Regex} {branches : List Regex}
    (hEnds : endsSequence nested c.rest = true)
    (h : readBranches nested atom c = .ok (branches, c')) :
    endsSequence nested c'.rest = true ∧ ∀ s, c'.rest ≠ '|' :: s := by
  fun_induction readBranches nested atom c generalizing branches c' with
  | case1 => cases h
  | case2 => cases h
  | case3 c _ hRest r c₁ hBranch branches c₂ hBranches ih =>
    cases h
    exact ih (readSequence_ends hBranch) hBranches
  | case4 c hBar =>
    cases h
    exact ⟨hEnds, fun s hs => hBar s hs⟩

/-- An alternation inside groups ends at the end of the pattern or at a closing parenthesis. -/
theorem readAlternation_ends {nested : Bool} {atom : Consumer Regex} {r : Regex}
    (h : readAlternation nested atom c = .ok (r, c')) :
    c'.rest = [] ∨ nested = true ∧ ∃ s, c'.rest = ')' :: s := by
  have hBranches : endsSequence nested c'.rest = true ∧ ∀ s, c'.rest ≠ '|' :: s := by
    unfold readAlternation at h
    split at h
    · cases h
    · rename_i hFirst
      have hEnds := readSequence_ends hFirst
      split at h <;> cases h
      all_goals
        rename_i hBranches
        exact readBranches_ends hEnds hBranches
  obtain ⟨hEnds, hBar⟩ := hBranches
  cases hRest : c'.rest with
  | nil => exact .inl rfl
  | cons ch s =>
    have hNotBar : ch ≠ '|' := by
      rintro rfl
      exact hBar s hRest
    rw [hRest] at hEnds
    simp [endsSequence, hNotBar] at hEnds
    obtain ⟨rfl, hNested⟩ := hEnds
    exact .inr ⟨hNested, s, rfl⟩

/-! ## Readings go through the places -/

/-- What a reading from a place comes to: the places lead to where it ends, inside `depth` groups,
or to where it is refused. -/
inductive Tracked {α : Type} (p : Place) (depth : Nat) : Reading α → Prop
  | ok {a : α} {c' : Cursor} (h : p.Leads ⟨depth, c'⟩) : Tracked p depth (.ok (a, c'))
  | error {f : Failure} (h : p.Fails depth f) : Tracked p depth (.error f)

namespace Tracked

variable {α : Type} {p p' : Place} {result : Reading α}

theorem leads {a : α} (h : Tracked p depth result) (hOk : result = .ok (a, c')) :
    p.Leads ⟨depth, c'⟩ := by
  cases h with
  | ok h => cases hOk; exact h
  | error => cases hOk

theorem fails {f : Failure} (h : Tracked p depth result) (hError : result = .error f) :
    p.Fails depth f := by
  cases h with
  | ok => cases hError
  | error h => cases hError; exact h

theorem of_leads (h : Tracked p' depth result) (hLeads : p.Leads p') : Tracked p depth result := by
  cases h with
  | ok h => exact .ok (hLeads.trans h)
  | error h => exact .error (hLeads.fails h)

end Tracked

/-- An atom with its quantifier. -/
def readItem (atom : Consumer Regex) (c : Cursor) : Reading Quantifier :=
  (atom.read c).bind fun result => readQuantifier result.2

/-- Wherever an atom can stand inside `depth` groups, reading it with its quantifier goes through
the places. -/
def Consumer.Tracks (depth : Nat) (atom : Consumer Regex) : Prop :=
  ∀ c, endsSequence (0 < depth) c.rest = false → Tracked ⟨depth, c⟩ depth (readItem atom c)

section

variable {atom : Consumer Regex}

theorem readItems_tracked (hAtom : atom.Tracks depth) (c : Cursor) :
    Tracked ⟨depth, c⟩ depth (readItems (0 < depth) atom c) := by
  fun_induction readItems (0 < depth) atom c with
  | case1 c => exact .ok (.refl _)
  | case2 c hGoes f hFirst =>
    have hItem := hAtom c (Bool.not_eq_true _ ▸ hGoes)
    exact .error (hItem.fails (by simp only [readItem, hFirst, Except.bind]))
  | case3 c hGoes r c₁ hFirst f hQuantifier =>
    have hItem := hAtom c (Bool.not_eq_true _ ▸ hGoes)
    exact .error (hItem.fails (by simp only [readItem, hFirst, hQuantifier, Except.bind]))
  | case4 c hGoes r c₁ hFirst q c₂ hQuantifier f hItems ih =>
    have hItem : readItem atom c = .ok (q, c₂) := by
      simp only [readItem, hFirst, hQuantifier, Except.bind]
    have hLeads := (hAtom c (Bool.not_eq_true _ ▸ hGoes)).leads hItem
    exact .error (hLeads.fails (ih.fails hItems))
  | case5 c hGoes r c₁ hFirst q c₂ hQuantifier items c₃ hItems ih =>
    have hItem : readItem atom c = .ok (q, c₂) := by
      simp only [readItem, hFirst, hQuantifier, Except.bind]
    have hLeads := (hAtom c (Bool.not_eq_true _ ▸ hGoes)).leads hItem
    exact .ok (hLeads.trans (ih.leads hItems))

theorem readSequence_tracked (hAtom : atom.Tracks depth) (c : Cursor) :
    Tracked ⟨depth, c⟩ depth (readSequence (0 < depth) atom c) := by
  unfold readSequence
  split <;> rename_i hItems
  · exact .error ((readItems_tracked hAtom c).fails hItems)
  · exact .ok ((readItems_tracked hAtom c).leads hItems)

theorem readBranches_tracked (hAtom : atom.Tracks depth) (c : Cursor) :
    Tracked ⟨depth, c⟩ depth (readBranches (0 < depth) atom c) := by
  fun_induction readBranches (0 < depth) atom c with
  | case1 c _ hRest f hBranch =>
    have hBar := leads_of_advance (advance_bar hRest depth)
    exact .error (hBar.fails ((readSequence_tracked hAtom c.next).fails hBranch))
  | case2 c _ hRest r c₁ hBranch f hBranches ih =>
    have hBar := leads_of_advance (advance_bar hRest depth)
    have hLeads := hBar.trans ((readSequence_tracked hAtom c.next).leads hBranch)
    exact .error (hLeads.fails (ih.fails hBranches))
  | case3 c _ hRest r c₁ hBranch branches c₂ hBranches ih =>
    have hBar := leads_of_advance (advance_bar hRest depth)
    have hLeads := hBar.trans ((readSequence_tracked hAtom c.next).leads hBranch)
    exact .ok (hLeads.trans (ih.leads hBranches))
  | case4 c => exact .ok (.refl _)

theorem readAlternation_tracked (hAtom : atom.Tracks depth) (c : Cursor) :
    Tracked ⟨depth, c⟩ depth (readAlternation (0 < depth) atom c) := by
  unfold readAlternation
  split
  · rename_i hFirst
    exact .error ((readSequence_tracked hAtom c).fails hFirst)
  · rename_i first c₁ hFirst
    have hBranches : Tracked ⟨depth, c⟩ depth (readBranches (0 < depth) atom c₁) :=
      (readBranches_tracked hAtom c₁).of_leads ((readSequence_tracked hAtom c).leads hFirst)
    split <;> rename_i h
    · exact .error (hBranches.fails h)
    · exact .ok (hBranches.leads h)
    · exact .ok (hBranches.leads h)

/-- The quantifier after a piece leads to the next place, or is refused. -/
theorem readQuantifier_tracked {depth' : Nat} {c₁ : Cursor} (hBar : ∀ s, c.rest ≠ '|' :: s)
    (hOpen : ∀ s, c.rest ≠ '(' :: s) (hEnd : c.rest ≠ [])
    (hPiece : piece ⟨depth', c⟩ = .ok (depth, c₁)) :
    Tracked ⟨depth', c⟩ depth (readQuantifier c₁) := by
  have hAdvance := advance_piece hBar hOpen depth'
  rw [hPiece] at hAdvance
  change _ = afterPiece (depth, c₁) at hAdvance
  cases h : readQuantifier c₁ with
  | ok result =>
    obtain ⟨q, c₂⟩ := result
    rw [afterPiece, h] at hAdvance
    exact .ok (leads_of_advance hAdvance)
  | error f =>
    rw [afterPiece, h] at hAdvance
    refine .error (fails_of_advance (fun hDone => hEnd hDone.2) hAdvance ?_)
    rw [readQuantifier_openGroups h, unclosed_of_piece hOpen hEnd hPiece]
    rfl

/-- A group with its quantifier: the place after its opening, those of its body, and the closing
parenthesis. -/
theorem readGroup_tracked (hAtom : atom.Tracks (depth + 1)) (hDepth : depth < maxNesting)
    (hRest : c.rest = '(' :: s) :
    Tracked ⟨depth, c⟩ depth (readItem (readGroup atom) c) := by
  have hOpen := leads_of_advance (advance_open hRest hDepth)
  have hBody : Tracked ⟨depth, c⟩ (depth + 1) (readAlternation true atom (openGroup c).2) :=
    (readAlternation_tracked hAtom (openGroup c).2).of_leads hOpen
  change Tracked _ _ ((readGroupBody atom c).bind fun result => readQuantifier result.2)
  unfold readGroupBody
  cases h : readAlternation true atom (openGroup c).2 with
  | error f =>
    obtain ⟨p, f', hLeads, hDone, hError, hCause, hPosition, hUnclosed⟩ := hBody.fails h
    refine .error ⟨p, f', hLeads, hDone, hError, hCause, hPosition, hUnclosed.trans ?_⟩
    show depth + 1 + f.openGroups = depth + (f.openGroups + 1)
    omega
  | ok result =>
    obtain ⟨body, c₁⟩ := result
    have hLeads := hBody.leads h
    have hDone : ¬ (⟨depth + 1, c₁⟩ : Place).Done := fun hDone => Nat.succ_ne_zero _ hDone.1
    rcases readAlternation_ends h with hEnd | ⟨-, t, hClose⟩
    · simp only [hEnd]
      refine .error (hLeads.fails (fails_of_advance hDone (advance_of_nil hEnd) ?_))
      simp only [unclosed, hEnd]
      rfl
    · simp only [hClose]
      exact (readQuantifier_tracked (by simp [hClose]) (by simp [hClose]) (by simp [hClose])
        (piece_close hClose)).of_leads hLeads

/-- An atom that is no group. -/
theorem readAtomBody_tracked {group : Consumer Regex}
    (hGoes : endsSequence (0 < depth) c.rest = false) (hOpen : ∀ s, c.rest ≠ '(' :: s) :
    Tracked ⟨depth, c⟩ depth (readItem (readAtomWith group) c) := by
  have hBar : ∀ s, c.rest ≠ '|' :: s := by
    intro s hs
    rw [hs] at hGoes
    cases hGoes
  have hEnd : c.rest ≠ [] := by
    intro hEnd
    rw [hEnd] at hGoes
    cases hGoes
  have hAtom : readAtomBody group c = readAtomBody .refuse c := by
    unfold readAtomBody
    split
    case h_2 hRest => exact absurd hRest (hOpen _)
    all_goals simp_all
  have hPiece := piece_atom hGoes
  change Tracked _ _ ((readAtomBody group c).bind fun result => readQuantifier result.2)
  rw [hAtom]
  cases h : readAtomBody .refuse c with
  | error f =>
    rw [h] at hPiece
    have hAdvance := advance_piece hBar hOpen depth
    rw [hPiece] at hAdvance
    refine .error (fails_of_advance (fun hDone => hEnd hDone.2) hAdvance ?_)
    rw [readAtomBody_openGroups h, unclosed_of_piece_error hEnd hPiece]
    rfl
  | ok result =>
    rw [h] at hPiece
    exact readQuantifier_tracked hBar hOpen hEnd hPiece

theorem readAtom_tracks {levels : Nat} (hLevels : levels = maxNesting - depth) :
    (readAtom levels).Tracks depth := by
  induction levels generalizing depth with
  | zero =>
    intro c hGoes
    by_cases hOpen : ∃ s, c.rest = '(' :: s
    · obtain ⟨s, hRest⟩ := hOpen
      have hDone : ¬ (⟨depth, c⟩ : Place).Done := fun hDone => by
        cases hRest.symm.trans hDone.2
      have hRead : readItem (readAtom 0) c = .error (.unsupported c.pos c) := by
        change (readAtomBody .refuse c).bind _ = _
        simp only [readAtomBody, hRest]
        rfl
      rw [hRead]
      refine .error (fails_of_advance hDone (advance_tooDeep hRest (by omega)) ?_)
      simp only [unclosed, hRest]
      rfl
    · exact readAtomBody_tracked hGoes fun s hs => hOpen ⟨s, hs⟩
  | succ levels ih =>
    intro c hGoes
    by_cases hOpen : ∃ s, c.rest = '(' :: s
    · obtain ⟨s, hRest⟩ := hOpen
      have hItem :
          readItem (readAtom (levels + 1)) c = readItem (readGroup (readAtom levels)) c := by
        change (readAtomBody (readGroup (readAtom levels)) c).bind _ = _
        simp only [readAtomBody, hRest]
        rfl
      rw [hItem]
      exact readGroup_tracked (ih (by omega)) (by omega) hRest
    · exact readAtomBody_tracked hGoes fun s hs => hOpen ⟨s, hs⟩

end

/-! ## Whole patterns -/

/-- The place at the start of a pattern. -/
def Place.start (pattern : List Char) : Place := ⟨0, .start pattern⟩

variable {pattern : String}

/-- What `readPattern` reads goes through the places, however many groups are taken to be open. -/
theorem readPattern_tracked (openGroups : Nat) (c : Cursor) :
    Tracked ⟨openGroups, c⟩ openGroups
      (readAlternation (0 < openGroups) (readAtom (maxNesting - openGroups)) c) :=
  readAlternation_tracked (readAtom_tracks rfl) c

/-- A reading that succeeds has closed as many groups as it has opened. -/
theorem readPattern_leads {openGroups : Nat} {r : Regex}
    (h : readPattern openGroups c = .ok (r, c')) :
    Leads ⟨openGroups, c⟩ ⟨openGroups, c'⟩ ∧ c'.rest = [] := by
  unfold readPattern at h
  split at h
  · cases h
  · rename_i hRead
    split at h <;> cases h
    rename_i hEnd
    exact ⟨(readPattern_tracked openGroups c).leads hRead, List.isEmpty_iff.1 hEnd⟩

/-- The count of open groups that a parser keeps when it succeeds is the one that the places come
to, which go one up at every parenthesis that opens a group and one down where it is closed. -/
theorem Parser.parse_leads {p p' : Parser} {r : Regex} (h : p.parse = .ok (.ok r, p')) :
    ∃ c c', p.cursor? = some c ∧ Leads ⟨p.openGroups, c⟩ ⟨p'.openGroups, c'⟩ ∧ c'.rest = [] ∧
      p' = { p with pos := c'.pos, nextId := c'.nextId } := by
  unfold Parser.parse at h
  split at h
  · cases h
  · rename_i c hCursor
    split at h
    · cases h
    · rename_i r' c' hRead
      cases h
      obtain ⟨hLeads, hEnd⟩ := readPattern_leads hRead
      exact ⟨c, c', hCursor, hLeads, hEnd, rfl⟩

theorem parse_tracked (pattern : String) :
    (∀ r, parse pattern = .ok r → (Place.start pattern.toList).Accepted) ∧
      ∀ e, parse pattern = .error e →
        (Place.start pattern.toList).Refused e.cause e.position := by
  have hRegex := readPattern_tracked 0 (.start pattern.toList)
  unfold parse readPattern
  cases h : readAlternation (0 < 0) (readAtom (maxNesting - 0)) (.start pattern.toList) with
  | error f =>
    refine ⟨fun r hOk => (by cases hOk), fun e hError => ?_⟩
    cases hError
    exact (hRegex.fails h).refused
  | ok result =>
    obtain ⟨r, c⟩ := result
    rcases readAlternation_ends h with hEnd | ⟨hNested, -⟩
    · refine ⟨fun _ _ => ⟨_, hRegex.leads h, rfl, hEnd⟩, fun e hError => ?_⟩
      simp [hEnd] at hError
    · cases hNested

/-- A pattern is read exactly if the places lead to its end. -/
theorem parse_isOk_iff :
    (∃ r, parse pattern = .ok r) ↔ (Place.start pattern.toList).Accepted := by
  constructor
  · rintro ⟨r, h⟩
    exact (parse_tracked pattern).1 r h
  · intro hAccepted
    cases h : parse pattern with
    | ok r => exact ⟨r, rfl⟩
    | error e => exact absurd hAccepted ((parse_tracked pattern).2 e h).not_accepted

/-- A pattern is refused exactly if the places lead to one where this is refused. -/
theorem parse_error_iff {cause : CompileCause} {position : Nat} :
    (∃ e, parse pattern = .error e ∧ e.cause = cause ∧ e.position = position) ↔
      (Place.start pattern.toList).Refused cause position := by
  constructor
  · rintro ⟨e, h, rfl, rfl⟩
    exact (parse_tracked pattern).2 e h
  · intro hRefused
    cases h : parse pattern with
    | ok r => exact absurd ((parse_tracked pattern).1 r h) hRefused.not_accepted
    | error e => exact ⟨e, rfl, ((parse_tracked pattern).2 e h).unique hRefused⟩

end BacktrackRegex
