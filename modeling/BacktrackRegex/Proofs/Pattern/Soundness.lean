import BacktrackRegex.Proofs.Pattern.Equations
import BacktrackRegex.Proofs.Pattern.Unambiguity

/-!
# What is read is in the grammar

Every reader that succeeds has gone over a piece of text that the grammar has a derivation for.  No
quantifier is read only where none stands, so that the grammar's priority of brace forms is kept.

* `readNumber_spec`, `readUpperBound_iff`, `readQuantifier_spec` — bounds and quantifiers;
* `readMembers_spec` — the members of a class, each in the place where it first comes up;
* `Consumer.Sound` — what a reader of atoms promises, and what the readers over it make of it;
* `parse_sound` — a pattern that is read has a derivation.
-/

set_option autoImplicit false

namespace BacktrackRegex

open Grammar

variable {c c' : Cursor}

/-! ## Quantifiers -/

theorem noDigit_dropWhile (s : List Char) : NoDigit (s.dropWhile Char.isDigit) := by
  intro c t h
  have hHead := List.head?_dropWhile_not Char.isDigit s
  rw [h] at hHead
  simpa using hHead

/-- The digits that a text begins with, if there are any, are a number. -/
theorem number_takeWhile {s : List Char} (hSome : s.takeWhile Char.isDigit ≠ []) :
    Number s (decimalValue (s.takeWhile Char.isDigit)) (s.dropWhile Char.isDigit) := by
  have hDigits : ∀ ch ∈ s.takeWhile Char.isDigit, ch.isDigit = true :=
    List.all_eq_true.1 List.all_takeWhile
  have hNumber := Number.intro hSome hDigits (s.dropWhile Char.isDigit)
  rwa [List.takeWhile_append_dropWhile] at hNumber

/-- A number is read up to the first character that is no digit; without one nothing is read. -/
theorem readNumber_spec {n : Option UInt32} (h : readNumber c = .ok (n, c')) :
    NoDigit c'.rest ∧ (n = none ∧ c' = c ∨ ∃ m, n = some m ∧ Number c.rest m.toNat c'.rest) := by
  have hSplit := List.takeWhile_append_dropWhile (p := Char.isDigit) (l := c.rest)
  have hStop := noDigit_dropWhile c.rest
  unfold readNumber at h
  split at h
  · rename_i hNone
    cases h
    rw [hNone, List.nil_append] at hSplit
    rw [hSplit] at hStop
    exact ⟨hStop, .inl ⟨rfl, rfl⟩⟩
  · rename_i digits hSome
    split at h <;> cases h
    refine ⟨hStop, .inr ⟨_, rfl, ?_⟩⟩
    simpa only [UInt32.toNat_ofNatLT] using number_takeWhile hSome

theorem readNumber_none (h : readNumber c = .ok (none, c')) : c' = c ∧ NoDigit c.rest := by
  obtain ⟨hStop, ⟨-, rfl⟩ | ⟨m, hNone, -⟩⟩ := readNumber_spec h
  · exact ⟨rfl, hStop⟩
  · cases hNone

theorem readNumber_some {n : UInt32} (h : readNumber c = .ok (some n, c')) :
    Number c.rest n.toNat c'.rest ∧ NoDigit c'.rest := by
  obtain ⟨hStop, ⟨hNone, -⟩ | ⟨m, hSome, hNumber⟩⟩ := readNumber_spec h
  · cases hNone
  · cases hSome
    exact ⟨hNumber, hStop⟩

/-- Where the rest of a brace form stands, and only there, an upper bound is read that has the
closing brace after it. -/
theorem readUpperBound_iff {min : UInt32} {max : Option UInt32}
    (h : readUpperBound min c = .ok (max, c')) {bound : Option Nat} {t : List Char} :
    UpperBound min.toNat c.rest bound t ↔
      bound = max.map UInt32.toNat ∧ c'.rest = '\x7d' :: t := by
  have hBrace : NoDigit ('\x7d' :: t) := noDigit_cons (by decide) t
  unfold readUpperBound at h
  split at h
  · rename_i s hRest
    have hNext := Cursor.next_rest_of_cons hRest
    rw [hRest]
    obtain ⟨hStop, ⟨rfl, rfl⟩ | ⟨m, rfl, hNumber⟩⟩ := readNumber_spec h
    · rw [hNext] at hStop ⊢
      constructor
      · rintro (_ | _ | hGiven)
        · exact ⟨rfl, rfl⟩
        · exact absurd hStop hGiven.not_noDigit
      · rintro ⟨rfl, rfl⟩
        exact .absent t
    · rw [hNext] at hNumber
      constructor
      · rintro (_ | _ | hGiven)
        · exact absurd hBrace hNumber.not_noDigit
        · obtain ⟨rfl, hRest'⟩ := hGiven.unique hNumber hBrace hStop
          exact ⟨rfl, hRest'.symm⟩
      · rintro ⟨rfl, hRest'⟩
        exact .given (hRest' ▸ hNumber)
  · -- Without a comma only the closing brace completes the form, and no bound is read.
    rename_i hRest
    cases h
    constructor
    · intro hBound
      generalize c.rest = s at hBound hRest
      cases hBound with
      | same => exact ⟨rfl, rfl⟩
      | absent => exact (hRest _ rfl).elim
      | given => exact (hRest _ rfl).elim
    · rintro ⟨rfl, hRest'⟩
      rw [hRest']
      exact .same t

/-- Either a quantifier is read, or there is no brace form and nothing is read. -/
theorem readBraces_spec {q : Quantifier} {s : List Char} (hRest : c.rest = '\x7b' :: s)
    (h : readBraces c = .ok (q, c')) :
    Quantified c.rest q c'.rest ∨ q = .once ∧ c' = c ∧ ¬ OpensBraces c.rest := by
  have hNext := Cursor.next_rest_of_cons hRest
  unfold readBraces at h
  rw [hRest]
  split at h
  · cases h
  · rename_i c₁ hMin
    cases h
    obtain ⟨rfl, hStop⟩ := readNumber_none hMin
    rw [hNext] at hStop
    refine .inr ⟨rfl, rfl, ?_⟩
    rintro ⟨_, _, _, hMin', _⟩
    exact hMin'.not_noDigit hStop
  · rename_i min c₁ hMin
    obtain ⟨hNumber, hStop⟩ := readNumber_some hMin
    rw [hNext] at hNumber
    split at h
    · cases h
    rename_i max c₂ hMax
    split at h
    · rename_i t hClose
      split at h <;> cases h
      rename_i hOrder
      rw [Cursor.next_rest_of_cons hClose]
      refine .inl (.braces (.intro hNumber ((readUpperBound_iff hMax).2 ⟨rfl, hClose⟩)) ?_)
      rintro max rfl
      simpa using hOrder
    · rename_i hOpen
      cases h
      refine .inr ⟨rfl, rfl, ?_⟩
      rintro ⟨_, _, _, hMin', hMax'⟩
      obtain ⟨rfl, rfl⟩ := hMin'.unique hNumber hMax'.noDigit hStop
      exact hOpen _ ((readUpperBound_iff hMax).1 hMax').2

/-- The same for quantifiers of every form. -/
theorem readQuantifier_spec {q : Quantifier} (h : readQuantifier c = .ok (q, c')) :
    Quantified c.rest q c'.rest ∨ q = .once ∧ c' = c ∧ ¬ OpensBraces c.rest := by
  unfold readQuantifier at h
  split at h
  case h_4 hRest => exact readBraces_spec hRest h
  all_goals
    rename_i hRest
    cases h
  case h_1 =>
    rw [Cursor.next_rest_of_cons hRest, hRest]
    exact .inl (.star _)
  case h_2 =>
    rw [Cursor.next_rest_of_cons hRest, hRest]
    exact .inl (.plus _)
  case h_3 =>
    rw [Cursor.next_rest_of_cons hRest, hRest]
    exact .inl (.mark _)
  case h_5 =>
    refine .inr ⟨rfl, rfl, ?_⟩
    rintro ⟨min, max, t, hForm⟩
    generalize c.rest = s at hForm hRest
    obtain ⟨_, _⟩ := hForm
    exact hRest _ rfl

/-! ## Characters -/

theorem addMember_eraseDups (ch : Char) (chars : List Char) :
    addMember ch chars.eraseDups = (chars ++ [ch]).eraseDups := by
  unfold addMember
  rw [List.eraseDups_append]
  split
  · rename_i hMember
    have hMember' : ch ∈ chars := by simpa using hMember
    simp [List.removeAll, hMember']
  · rename_i hMember
    have hMember' : ch ∉ chars := by simpa using hMember
    simp [List.removeAll, hMember', List.eraseDups_cons]

/-- The members that are read, added to those read before, with a place only for the first of each
kind. -/
theorem readMembers_spec {nextId pos : Nat} {before rest found : List Char}
    (h : readMembers nextId pos before.eraseDups rest = .ok (found, c')) :
    ∃ members, Members rest members c'.rest ∧ found = (before ++ members).eraseDups := by
  generalize hBefore : before.eraseDups = start at h
  fun_induction readMembers nextId pos start rest generalizing before with
  | case1 => cases h
  | case2 =>
    cases h
    exact ⟨[], .close _, by rw [List.append_nil, hBefore]⟩
  | case3 => cases h
  | case4 pos start ch rest ih =>
    obtain ⟨members, hMembers, rfl⟩ := ih (by rw [← addMember_eraseDups, hBefore]) h
    exact ⟨ch :: members, .escaped ch hMembers, by rw [List.append_assoc]; rfl⟩
  | case5 => cases h
  | case6 pos start ch rest hClose hLone hEscape hCaret ih =>
    obtain ⟨members, hMembers, rfl⟩ := ih (by rw [← addMember_eraseDups, hBefore]) h
    have hSlash : ch ≠ '\\' := by
      rintro rfl
      cases rest with
      | nil => exact hLone rfl rfl
      | cons d rest => exact hEscape d rest rfl rfl
    have hPlain : ch ∉ ['^', ']', '\\'] := by
      simpa using ⟨hCaret, hClose, hSlash⟩
    exact ⟨ch :: members, .plain hPlain hMembers, by rw [List.append_assoc]; rfl⟩

theorem openClass_of_caret {s : List Char} (hRest : c.rest = '[' :: '^' :: s) :
    (openClass c).1 = true ∧ (openClass c).2.rest = s := by
  rw [openClass_caret hRest]
  exact ⟨rfl, Cursor.next_rest_of_cons (Cursor.next_rest_of_cons hRest)⟩

theorem openClass_of_not_caret {s : List Char} (hRest : c.rest = '[' :: s)
    (hCaret : ¬ ∃ t, s = '^' :: t) : (openClass c).1 = false ∧ (openClass c).2.rest = s := by
  rw [openClass_bare hRest (not_exists.1 hCaret)]
  exact ⟨rfl, Cursor.next_rest_of_cons hRest⟩

theorem readClass_sound {depth : Nat} {r : Regex} {s : List Char} (hRest : c.rest = '[' :: s)
    (h : readClass c = .ok (r, c')) : Atom depth c.rest r.anonymous c'.rest := by
  unfold readClass at h
  split at h
  · cases h
  · rename_i members c₁ hMembers
    cases h
    obtain ⟨members, hMembers', rfl⟩ := @readMembers_spec c' _ _ [] _ _ hMembers
    rw [List.nil_append, hRest]
    by_cases hCaret : ∃ t, s = '^' :: t
    · obtain ⟨t, rfl⟩ := hCaret
      obtain ⟨hNegated, hStart⟩ := openClass_of_caret hRest
      rw [hNegated]
      exact .leaf (.others (hStart ▸ hMembers'))
    · obtain ⟨hNegated, hStart⟩ := openClass_of_not_caret hRest hCaret
      rw [hNegated]
      exact .leaf (.members (hStart ▸ hMembers'))

theorem readEscape_sound {depth : Nat} {r : Regex} {s : List Char} (hRest : c.rest = '\\' :: s)
    (h : readEscape c = .ok (r, c')) : Atom depth c.rest r.anonymous c'.rest := by
  have hNext := Cursor.next_rest_of_cons hRest
  unfold readEscape at h
  split at h
  · cases h
  · rename_i ch t hChar
    cases h
    rw [Cursor.next_rest_of_cons hChar, hRest, ← hNext, hChar]
    exact .leaf (.escaped ch t)

/-! ## Regexes -/

/-- The reader derives every atom that it reads inside `depth` groups, where no sequence ends. -/
def Consumer.Sound (depth : Nat) (atom : Consumer Regex) : Prop :=
  ∀ c r c', endsSequence (0 < depth) c.rest = false → atom.read c = .ok (r, c') →
    Atom depth c.rest r.anonymous c'.rest

section

variable {depth : Nat} {atom : Consumer Regex} {r : Regex}

theorem readItems_sound (hAtom : atom.Sound depth) {items : List (Regex × Quantifier)}
    (h : readItems (0 < depth) atom c = .ok (items, c')) :
    Sequence depth c.rest (itemsAnonymous items) c'.rest := by
  fun_induction readItems (0 < depth) atom c generalizing items c' with
  | case1 => cases h; exact .nil depth _
  | case2 => cases h
  | case3 => cases h
  | case4 => cases h
  | case5 c hGoes r c₁ hFirst q c₂ hQuantifier items c₃ hItems ih =>
    cases h
    have hAtom' := hAtom c r c₁ (Bool.not_eq_true _ ▸ hGoes) hFirst
    obtain hQuantified | ⟨rfl, rfl, hBare⟩ := readQuantifier_spec hQuantifier
    · exact .quantified hAtom' hQuantified (ih hItems)
    · exact .once hAtom' hBare (ih hItems)

theorem readSequence_sound (hAtom : atom.Sound depth)
    (h : readSequence (0 < depth) atom c = .ok (r, c')) :
    ∃ items, r = .seq items ∧ Sequence depth c.rest (itemsAnonymous items) c'.rest := by
  unfold readSequence at h
  split at h
  · cases h
  · rename_i items c₁ hItems
    cases h
    exact ⟨items, rfl, readItems_sound hAtom hItems⟩

theorem readBranches_sound (hAtom : atom.Sound depth) {branches : List Regex}
    (h : readBranches (0 < depth) atom c = .ok (branches, c')) :
    Branches depth c.rest (branchesAnonymous branches) c'.rest := by
  fun_induction readBranches (0 < depth) atom c generalizing branches c' with
  | case1 => cases h
  | case2 => cases h
  | case3 c s hRest r c₁ hBranch branches c₂ hBranches ih =>
    cases h
    obtain ⟨items, rfl, hItems⟩ := readSequence_sound hAtom hBranch
    rw [Cursor.next_rest_of_cons hRest] at hItems
    rw [hRest]
    exact .cons hItems (ih hBranches)
  | case4 => cases h; exact .nil depth _

theorem readAlternation_sound (hAtom : atom.Sound depth)
    (h : readAlternation (0 < depth) atom c = .ok (r, c')) :
    Alternation depth c.rest r.anonymous c'.rest := by
  unfold readAlternation at h
  split at h
  · cases h
  · rename_i first c₁ hFirst
    obtain ⟨items, rfl, hItems⟩ := readSequence_sound hAtom hFirst
    split at h
    · cases h
    · rename_i hBranches
      cases h
      generalize hStart : c₁.rest = s at hItems
      have hNone := readBranches_sound hAtom hBranches
      rw [hStart] at hNone
      cases hNone
      exact .single hItems
    · rename_i hBranches
      cases h
      exact .several hItems (readBranches_sound hAtom hBranches)

theorem openGroup_of_mark {s : List Char} (hRest : c.rest = '(' :: '?' :: ':' :: s) :
    (openGroup c).1 = none ∧ (openGroup c).2.rest = s := by
  rw [openGroup_mark hRest]
  have hMark := Cursor.next_rest_of_cons hRest
  exact ⟨rfl, Cursor.next_rest_of_cons (Cursor.next_rest_of_cons hMark)⟩

theorem openGroup_of_not_mark {s : List Char} (hRest : c.rest = '(' :: s)
    (hMark : ¬ ∃ t, s = '?' :: ':' :: t) :
    (openGroup c).1 = some c.nextId ∧ (openGroup c).2.rest = s := by
  rw [openGroup_bare hRest (not_exists.1 hMark)]
  exact ⟨rfl, Cursor.next_rest_of_cons hRest⟩

theorem readGroupBody_sound (hAtom : atom.Sound (depth + 1)) (hDepth : depth < maxNesting)
    {s : List Char} (hRest : c.rest = '(' :: s) (h : readGroupBody atom c = .ok (r, c')) :
    Atom depth c.rest r.anonymous c'.rest := by
  unfold readGroupBody at h
  split at h
  · cases h
  · rename_i body c₁ hBody
    have hBody' := readAlternation_sound hAtom hBody
    split at h <;> cases h
    rename_i t hClose
    rw [hClose] at hBody'
    rw [Cursor.next_rest_of_cons hClose, hRest]
    by_cases hMark : ∃ t, s = '?' :: ':' :: t
    · obtain ⟨u, rfl⟩ := hMark
      obtain ⟨hId, hStart⟩ := openGroup_of_mark hRest
      rw [hId]
      exact .bare hDepth (hStart ▸ hBody')
    · obtain ⟨hId, hStart⟩ := openGroup_of_not_mark hRest hMark
      rw [hId]
      exact .capturing hDepth (hStart ▸ hBody')

theorem readAtomWith_sound {group : Consumer Regex}
    (hGroup : ∀ c r c' s, c.rest = '(' :: s → group.read c = .ok (r, c') →
      Atom depth c.rest r.anonymous c'.rest) : (readAtomWith group).Sound depth := by
  intro c r c' hGoes h
  change readAtomBody group c = _ at h
  unfold readAtomBody at h
  split at h
  · cases h
  · rename_i hRest
    exact hGroup c r c' _ hRest h
  · rename_i hRest
    exact readClass_sound hRest h
  · rename_i hRest
    exact readEscape_sound hRest h
  · rename_i hRest
    cases h
    rw [Cursor.next_rest_of_cons hRest, hRest]
    exact .leaf (.dot _)
  · rename_i ch t hParen hBracket hSlash hDot hRest
    split at h <;> cases h
    rename_i hReserved
    rw [hRest] at hGoes
    rw [Cursor.next_rest_of_cons hRest, hRest]
    have hPlain : ch ∉ ['*', '+', '?', '[', ']', '(', '|', '\\', '.'] := by
      simp only [not_or] at hReserved
      simp only [List.mem_cons, List.not_mem_nil, or_false, not_or]
      exact ⟨hReserved.1, hReserved.2.1, hReserved.2.2.1, hBracket, hReserved.2.2.2.1, hParen,
        hReserved.2.2.2.2, hSlash, hDot⟩
    have hClose : ch = ')' → depth = 0 := by
      rintro rfl
      simpa [endsSequence] using hGoes
    exact .leaf (.plain hPlain hClose t)

/-- With every level of groups that is not yet open to spare, atoms are read as the grammar has
them. -/
theorem readAtom_sound {levels : Nat} (hLevels : depth + levels = maxNesting) :
    (readAtom levels).Sound depth := by
  induction levels generalizing depth with
  | zero =>
    refine readAtomWith_sound fun c r c' s _ h => ?_
    cases h
  | succ levels ih =>
    refine readAtomWith_sound fun c r c' s hRest h => ?_
    exact readGroupBody_sound (ih (by omega)) (by omega) hRest h

end

/-- A pattern that is read has a derivation of its regex. -/
theorem parse_sound {pattern : String} {r : Regex} (h : parse pattern = .ok r) :
    Derives pattern.toList r.anonymous := by
  unfold parse readPattern at h
  split at h
  · cases h
  · rename_i hPattern
    split at hPattern
    · cases hPattern
    · rename_i c₁ hRegex
      split at hPattern <;> cases hPattern
      rename_i hDone
      cases h
      have hDerives := readAlternation_sound (readAtom_sound (Nat.zero_add _)) hRegex
      rw [List.isEmpty_iff.1 hDone] at hDerives
      exact hDerives

end BacktrackRegex
