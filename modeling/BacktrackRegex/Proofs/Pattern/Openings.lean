import BacktrackRegex.Proofs.Pattern.Pieces
import Mathlib.Data.List.Forall2

/-!
# Groups and the parentheses that open them

The capturing groups of a pattern are opened by the parentheses that stand behind no backslash, in
no class and before no `?:`.  Those are the places where the groups are, in one order: the groups of
a regex in the order in which they open, the parentheses from left to right.

* `Regex.capturingGroups` — the groups, each with its number and its body;
* `capturingParens` — the parentheses, each with the text before it and the text from it on;
* `OpenedBy` — the group that is read at a parenthesis;
* `Opens` — what a reader promises about the parentheses it goes over;
* `parse_capturingParens` — the parentheses of a pattern and the groups of its regex.
-/

set_option autoImplicit false

namespace BacktrackRegex

/-! ## Groups -/

mutual

/-- The capturing groups, each with its number and its body, in the order in which they open. -/
def Regex.capturingGroups : Regex → List (Nat × Regex)
  | .seq items => itemsCapturingGroups items
  | .alt branches => branchesCapturingGroups branches
  | .group id body => (id.map (·, body)).toList ++ body.capturingGroups
  | .leaf _ => []

/-- The capturing groups in the items of a sequence. -/
def itemsCapturingGroups : List (Regex × Quantifier) → List (Nat × Regex)
  | [] => []
  | (r, _) :: items => r.capturingGroups ++ itemsCapturingGroups items

/-- The capturing groups in the branches of an alternation. -/
def branchesCapturingGroups : List Regex → List (Nat × Regex)
  | [] => []
  | r :: branches => r.capturingGroups ++ branchesCapturingGroups branches

end

mutual

theorem Regex.capturingGroups_ids : ∀ r : Regex, r.capturingGroups.map Prod.fst = r.ids
  | .seq items => itemsCapturingGroups_ids items
  | .alt branches => branchesCapturingGroups_ids branches
  | .group id body => by
    rw [Regex.capturingGroups, Regex.ids, List.map_append, Regex.capturingGroups_ids body]
    cases id <;> rfl
  | .leaf _ => rfl

theorem itemsCapturingGroups_ids : ∀ items : List (Regex × Quantifier),
    (itemsCapturingGroups items).map Prod.fst = itemsIds items
  | [] => rfl
  | (r, _) :: items => by
    rw [itemsCapturingGroups, itemsIds, List.map_append, Regex.capturingGroups_ids r,
      itemsCapturingGroups_ids items]

theorem branchesCapturingGroups_ids : ∀ branches : List Regex,
    (branchesCapturingGroups branches).map Prod.fst = branchesIds branches
  | [] => rfl
  | r :: branches => by
    rw [branchesCapturingGroups, branchesIds, List.map_append, Regex.capturingGroups_ids r,
      branchesCapturingGroups_ids branches]

end

/-! ## Parentheses -/

/-- The text begins with the mark of a group that does not capture. -/
def startsWithMark : List Char → Bool
  | '?' :: ':' :: _ => true
  | _ => false

/-- The capturing parentheses of a text that comes after `before`: those that open a group and have
no `?:` after them.  Each is given by the text before it and the text from it on. -/
def capturingParens (before : List Char) : List Char → List (List Char × List Char)
  | [] => []
  | ch :: s =>
    if (Lexis.after before).opens ch && !startsWithMark s then
      (before, ch :: s) :: capturingParens (before ++ [ch]) s
    else capturingParens (before ++ [ch]) s

/-- The group is what is read at the parenthesis, with the group's number as the next one and the
levels of nesting that are left there. -/
def OpenedBy (paren : List Char × List Char) (group : Nat × Regex) : Prop :=
  ∃ c, (readAtom (maxNesting - (Lexis.after paren.1).openGroups)).read
    ⟨paren.2, byteLength paren.1, group.1⟩ = .ok (.group (some group.1) group.2, c)

variable {c c' c₁ c₂ : Cursor} {depth : Nat} {before s t : List Char}

/-- A text that opens no group has no such parenthesis. -/
theorem capturingParens_quiet {text : List Char} {l : Lexis}
    (h : (Lexis.after before).Passes text l) (s : List Char) :
    capturingParens before (text ++ s) = capturingParens (before ++ text) s := by
  induction text generalizing before with
  | nil => rw [List.nil_append, List.append_nil]
  | cons ch text ih =>
    cases h with
    | cons hQuiet h =>
      have hNext : Lexis.after (before ++ [ch]) = (Lexis.after before).next ch :=
        Lexis.after_append before [ch]
      rw [← hNext] at h
      rw [List.cons_append, capturingParens, hQuiet, Bool.false_and, if_neg Bool.false_ne_true,
        ih h, List.append_assoc, List.singleton_append]

theorem capturingParens_open (hLexis : Lexis.after before = .plain depth)
    (hMark : ∀ t, s ≠ '?' :: ':' :: t) :
    capturingParens before ('(' :: s) =
      (before, '(' :: s) :: capturingParens (before ++ ['(']) s := by
  have hNone : startsWithMark s = false := by
    unfold startsWithMark
    split
    · exact (hMark _ rfl).elim
    · rfl
  rw [capturingParens, hLexis, hNone]
  rfl

theorem capturingParens_mark (hLexis : Lexis.after before = .plain depth) (s : List Char) :
    capturingParens before ('(' :: '?' :: ':' :: s) =
      capturingParens (before ++ ['(', '?', ':']) s := by
  have hOpened : Lexis.after (before ++ ['(']) = .plain (depth + 1) := by
    rw [Lexis.after_append, hLexis]
    rfl
  have hQuiet : (Lexis.after (before ++ ['('])).Passes ['?', ':'] (.plain (depth + 1)) := by
    rw [hOpened]
    exact Lexis.passes_plain (by simp) (depth + 1)
  have hMark := capturingParens_quiet hQuiet s
  rw [List.append_assoc] at hMark
  have hSome : startsWithMark ('?' :: ':' :: s) = true := rfl
  rw [capturingParens, hSome, Bool.not_true, Bool.and_false, if_neg Bool.false_ne_true]
  exact hMark

/-! ## What readers go over -/

/-- From `c`, inside `depth` groups, to `c'`, inside `depth'` groups, the parentheses gone over are
those that open the groups. -/
def Opens (depth : Nat) (c : Cursor) (groups : List (Nat × Regex)) (depth' : Nat) (c' : Cursor) :
    Prop :=
  ∀ before, Lexis.after before = .plain depth → c.pos = byteLength before →
    ∃ text parens, c.Passes text c' ∧ Lexis.after (before ++ text) = .plain depth' ∧
      capturingParens before c.rest = parens ++ capturingParens (before ++ text) c'.rest ∧
      List.Forall₂ OpenedBy parens groups

/-- The reader keeps this promise wherever an atom can stand inside `depth` groups. -/
def Consumer.Opens (depth : Nat) (atom : Consumer Regex) : Prop :=
  ∀ c r c', endsSequence (0 < depth) c.rest = false → atom.read c = .ok (r, c') →
    BacktrackRegex.Opens depth c r.capturingGroups depth c'

namespace Opens

variable {groups groups' : List (Nat × Regex)} {depth' depth₁ depth₂ : Nat}

/-- A text that opens no group. -/
theorem quiet {text : List Char} (hPasses : c.Passes text c')
    (hLexis : (Lexis.plain depth).Passes text (.plain depth')) : Opens depth c [] depth' c' := by
  intro before hBefore _
  refine ⟨text, [], hPasses, ?_, ?_, .nil⟩
  · rw [Lexis.after_append, hBefore, hLexis.across]
  · rw [hPasses.rest, List.nil_append]
    exact capturingParens_quiet (hBefore ▸ hLexis) c'.rest

theorem refl (depth : Nat) (c : Cursor) : Opens depth c [] depth c :=
  quiet (.nil c) (.nil _)

theorem trans (h : Opens depth c groups depth₁ c₁) (h' : Opens depth₁ c₁ groups' depth₂ c₂) :
    Opens depth c (groups ++ groups') depth₂ c₂ := by
  intro before hBefore hPos
  obtain ⟨text, parens, hPasses, hLexis, hParens, hGroups⟩ := h before hBefore hPos
  have hPos' : c₁.pos = byteLength (before ++ text) := by
    rw [hPasses.pos, hPos, byteLength_append]
  obtain ⟨text', parens', hPasses', hLexis', hParens', hGroups'⟩ := h' _ hLexis hPos'
  refine ⟨text ++ text', parens ++ parens', hPasses.trans hPasses', ?_, ?_,
    List.rel_append hGroups hGroups'⟩
  · rw [← List.append_assoc, hLexis']
  · rw [hParens, hParens', List.append_assoc, List.append_assoc]

end Opens

theorem readQuantifier_opens {q : Quantifier} (h : readQuantifier c = .ok (q, c')) (depth : Nat) :
    Opens depth c [] depth c' := by
  rcases readQuantifier_takes h with ⟨-, rfl, -⟩ | ⟨text, hTakes, hLexis⟩
  · exact .refl depth _
  · exact .quiet hTakes.passes (hLexis depth)

section

variable {atom : Consumer Regex} {r : Regex}

theorem readItems_opens (hAtom : atom.Opens depth) {items : List (Regex × Quantifier)}
    (h : readItems (0 < depth) atom c = .ok (items, c')) :
    Opens depth c (itemsCapturingGroups items) depth c' := by
  fun_induction readItems (0 < depth) atom c generalizing items c' with
  | case1 => cases h; exact .refl depth _
  | case2 => cases h
  | case3 => cases h
  | case4 => cases h
  | case5 c hGoes r c₁ hFirst q c₂ hQuantifier items c₃ hItems ih =>
    cases h
    have hItem := (hAtom c r c₁ (Bool.not_eq_true _ ▸ hGoes) hFirst).trans
      (readQuantifier_opens hQuantifier depth)
    rw [List.append_nil] at hItem
    exact hItem.trans (ih hItems)

theorem readSequence_opens (hAtom : atom.Opens depth)
    (h : readSequence (0 < depth) atom c = .ok (r, c')) :
    Opens depth c r.capturingGroups depth c' := by
  unfold readSequence at h
  split at h
  · cases h
  · rename_i hItems
    cases h
    exact readItems_opens hAtom hItems

theorem bar_opens (hRest : c.rest = '|' :: s) (depth : Nat) : Opens depth c [] depth c.next :=
  .quiet (Cursor.passes_next hRest) (Lexis.passes_plain (by simp) depth)

theorem readBranches_opens (hAtom : atom.Opens depth) {branches : List Regex}
    (h : readBranches (0 < depth) atom c = .ok (branches, c')) :
    Opens depth c (branchesCapturingGroups branches) depth c' := by
  fun_induction readBranches (0 < depth) atom c generalizing branches c' with
  | case1 => cases h
  | case2 => cases h
  | case3 c _ hRest r c₁ hBranch branches c₂ hBranches ih =>
    cases h
    have hFirst := (bar_opens hRest depth).trans (readSequence_opens hAtom hBranch)
    exact hFirst.trans (ih hBranches)
  | case4 => cases h; exact .refl depth _

theorem readAlternation_opens (hAtom : atom.Opens depth)
    (h : readAlternation (0 < depth) atom c = .ok (r, c')) :
    Opens depth c r.capturingGroups depth c' := by
  unfold readAlternation at h
  split at h
  · cases h
  · rename_i hFirst
    have hOpens := readSequence_opens hAtom hFirst
    split at h
    · cases h
    · rename_i hBranches
      cases h
      have hNone := hOpens.trans (readBranches_opens hAtom hBranches)
      rw [branchesCapturingGroups, List.append_nil] at hNone
      exact hNone
    · rename_i hBranches
      cases h
      exact hOpens.trans (readBranches_opens hAtom hBranches)

/-- The opening of a group goes over its parenthesis, which is one of those asked for unless the
mark of a group without number follows. -/
theorem openGroup_opens {body : Regex} (hRest : c.rest = '(' :: s)
    (h : (readAtom (maxNesting - depth)).read c = .ok (.group (openGroup c).1 body, c')) :
    Opens depth c (((openGroup c).1.map (·, body)).toList) (depth + 1) (openGroup c).2 := by
  by_cases hMark : ∃ t, s = '?' :: ':' :: t
  · obtain ⟨t, rfl⟩ := hMark
    have hNext := Cursor.next_rest_of_cons hRest
    have hNext' := Cursor.next_rest_of_cons hNext
    have hPasses := (Cursor.passes_next hRest).trans
      ((Cursor.passes_next hNext).trans (Cursor.passes_next hNext'))
    rw [openGroup_mark hRest]
    intro before hBefore _
    refine ⟨['(', '?', ':'], [], hPasses, ?_, ?_, .nil⟩
    · rw [Lexis.after_append, hBefore]
      rfl
    · rw [hRest, capturingParens_mark hBefore, Cursor.next_rest_of_cons hNext']
      rfl
  · have hBare : ∀ t, s ≠ '?' :: ':' :: t := fun t ht => hMark ⟨t, ht⟩
    have hPasses := Cursor.passes_next hRest
    rw [openGroup_bare hRest hBare] at h ⊢
    intro before hBefore hPos
    refine ⟨['('], [(before, c.rest)], ⟨hPasses.rest, hPasses.pos⟩, ?_, ?_, .cons ⟨c', ?_⟩ .nil⟩
    · rw [Lexis.after_append, hBefore]
      rfl
    · rw [hRest, capturingParens_open hBefore hBare, Cursor.next_rest_of_cons hRest]
      rfl
    · rw [hBefore, ← hPos]
      exact h

/-- A group: its parenthesis, those of its body, and the closing parenthesis. -/
theorem readGroupBody_opens {levels : Nat} (hLevels : depth + (levels + 1) = maxNesting)
    (hAtom : (readAtom levels).Opens (depth + 1)) (hRest : c.rest = '(' :: s)
    (h : readGroupBody (readAtom levels) c = .ok (r, c')) :
    Opens depth c r.capturingGroups depth c' := by
  have hRead : (readAtom (maxNesting - depth)).read c = .ok (r, c') := by
    rw [show maxNesting - depth = levels + 1 by omega, ← h]
    change readAtomBody (readGroup (readAtom levels)) c = _
    simp only [readAtomBody, hRest]
    rfl
  unfold readGroupBody at h
  split at h
  · cases h
  rename_i body c₁ hBody
  split at h <;> cases h
  rename_i t hClose
  have hOpen := openGroup_opens hRest hRead
  have hInside : Opens (depth + 1) (openGroup c).2 body.capturingGroups (depth + 1) c₁ :=
    readAlternation_opens hAtom hBody
  have hEnd : Opens (depth + 1) c₁ [] depth c₁.next :=
    .quiet (Cursor.passes_next hClose) (.cons rfl (.nil _))
  have hWhole := hOpen.trans (hInside.trans hEnd)
  rw [List.append_nil] at hWhole
  exact hWhole

/-- An atom that is no group has no groups in it. -/
theorem readAtomBody_leaf {group : Consumer Regex} (hOpen : ∀ s, c.rest ≠ '(' :: s)
    (h : readAtomBody group c = .ok (r, c')) : r.capturingGroups = [] := by
  unfold readAtomBody at h
  split at h
  · cases h
  · rename_i hRest
    exact absurd hRest (hOpen _)
  · unfold readClass at h
    split at h <;> cases h
    rfl
  · unfold readEscape at h
    split at h <;> cases h
    rfl
  · cases h
    rfl
  · split at h <;> cases h
    rfl

theorem readAtomWith_opens {group : Consumer Regex}
    (hGroup : ∀ c r c' s, c.rest = '(' :: s → group.read c = .ok (r, c') →
      Opens depth c r.capturingGroups depth c') : (readAtomWith group).Opens depth := by
  intro c r c' hGoes h
  change readAtomBody group c = _ at h
  by_cases hOpen : ∃ s, c.rest = '(' :: s
  · obtain ⟨s, hRest⟩ := hOpen
    simp only [readAtomBody, hRest] at h
    exact hGroup c r c' s hRest h
  · have hOpen' : ∀ s, c.rest ≠ '(' :: s := fun s hs => hOpen ⟨s, hs⟩
    obtain ⟨ch, text, hTakes, -, hLexis⟩ := readAtomBody_takes hOpen' h
    have hUnmatched : ch = ')' → depth = 0 := by
      rintro rfl
      rw [hTakes.passes.rest] at hGoes
      simpa [endsSequence] using hGoes
    rw [readAtomBody_leaf hOpen' h]
    exact .quiet hTakes.passes (hLexis depth hUnmatched)

/-- With every level of groups that is not yet open to spare, the parentheses are those of the
groups. -/
theorem readAtom_opens {levels : Nat} (hLevels : depth + levels = maxNesting) :
    (readAtom levels).Opens depth := by
  induction levels generalizing depth with
  | zero =>
    refine readAtomWith_opens fun c r c' s _ h => ?_
    cases h
  | succ levels ih =>
    refine readAtomWith_opens fun c r c' s hRest h => ?_
    exact readGroupBody_opens hLevels (ih (by omega)) hRest h

end

/-! ## Whole patterns -/

/-- What is read of a pattern as a regex leaves nothing. -/
theorem readAlternation_of_parse {pattern : String} {r : Regex} (h : parse pattern = .ok r) :
    ∃ c, readAlternation (0 < 0) (readAtom (maxNesting - 0)) (.start pattern.toList) = .ok (r, c) ∧
      c.rest = [] := by
  unfold parse readPattern at h
  split at h
  · cases h
  · rename_i hPattern
    split at hPattern
    · cases hPattern
    · rename_i hRead
      split at hPattern <;> cases hPattern
      rename_i hEnd
      cases h
      exact ⟨_, hRead, List.isEmpty_iff.1 hEnd⟩

/-- The capturing parentheses of a pattern that is read are as many as the capturing groups of its
regex.  The groups, in the order in which they open, are numbered from one, and each is the one that
the parenthesis in its place opens. -/
theorem parse_capturingParens {pattern : String} {r : Regex} {p : Parser}
    (h : ({ pattern } : Parser).parse = .ok (.ok r, p)) :
    (capturingParens [] pattern.toList).length = r.groupCount ∧
      r.capturingGroups.map Prod.fst = List.range' 1 r.groupCount ∧
      List.Forall₂ OpenedBy (capturingParens [] pattern.toList) r.capturingGroups := by
  have hParse := Parser.parse_new_eq_ok_iff.1 ⟨p, h⟩
  have hIds : r.capturingGroups.map Prod.fst = List.range' 1 r.groupCount := by
    rw [r.capturingGroups_ids]
    exact (parse_reads hParse).2
  have hGroups : List.Forall₂ OpenedBy (capturingParens [] pattern.toList) r.capturingGroups := by
    obtain ⟨c, hRead, hEnd⟩ := readAlternation_of_parse hParse
    obtain ⟨text, parens, -, -, hParens, hGroups⟩ :=
      readAlternation_opens (readAtom_opens (Nat.zero_add maxNesting)) hRead [] rfl rfl
    rw [hEnd, capturingParens, List.append_nil] at hParens
    rw [show capturingParens [] pattern.toList = parens from hParens]
    exact hGroups
  refine ⟨?_, hIds, hGroups⟩
  rw [hGroups.length_eq, ← List.length_map Prod.fst, hIds, List.length_range']

/-- Five opening parentheses are in `(a|\((?:[(]b)(c))`.  Of these the second one is escaped, the
third one is marked and the fourth one is in a class. -/
theorem parse_capturingParens_five :
    ∃ r p, ({ pattern := "(a|\\((?:[(]b)(c))" } : Parser).parse = .ok (.ok r, p) ∧
      (capturingParens [] "(a|\\((?:[(]b)(c))".toList).map (byteLength ·.1) = [0, 13] ∧
      r.groupCount = 2 ∧ r.capturingGroups.map Prod.fst = [1, 2] ∧
      List.Forall₂ OpenedBy (capturingParens [] "(a|\\((?:[(]b)(c))".toList)
        r.capturingGroups := by
  have hRead : (parse "(a|\\((?:[(]b)(c))").toOption.isSome = true := by
    decide +kernel
  obtain ⟨r, hParse⟩ := Option.isSome_iff_exists.1 hRead
  obtain ⟨p, hNew⟩ := Parser.parse_new_eq_ok_iff.2 (toOption_eq_some_iff.1 hParse)
  have hPlaces : (capturingParens [] "(a|\\((?:[(]b)(c))".toList).map (byteLength ·.1) =
      [0, 13] := by
    decide +kernel
  obtain ⟨hCount, hIds, hGroups⟩ := parse_capturingParens hNew
  have hTwo : r.groupCount = 2 := by
    rw [← hCount, ← List.length_map, hPlaces]
    rfl
  rw [hTwo] at hIds
  exact ⟨r, p, hNew, hPlaces, hTwo, hIds, hGroups⟩

end BacktrackRegex
