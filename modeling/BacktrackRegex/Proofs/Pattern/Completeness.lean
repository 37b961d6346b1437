import BacktrackRegex.Proofs.Pattern.Numbering
import BacktrackRegex.Proofs.Pattern.Soundness
import Mathlib.Data.List.DropRight

/-!
# What is in the grammar is read

Wherever the grammar derives a piece of text that nothing can be added to, the reader succeeds and
stops where the piece ends.  What it has read then needs no further care: it is in the grammar, and
the grammar is unambiguous.  The one thing that a reader cannot do is to hold a bound of more than
32 bits, so the digits of the pattern are asked to denote less.

* `DigitRunsFit` — the digits of a pattern denote bounds;
* `Grammar.Alternation.consumes` — derived text is read;
* `parse_ok` — a pattern that the grammar derives is read.
-/

set_option autoImplicit false

namespace BacktrackRegex

open Grammar

variable {c : Cursor} {depth : Nat} {s t : List Char}

/-! ## Runs of digits -/

/-- A run of digits that has no digit on either side of it denotes a number of 32 bits. -/
def DigitRunsFit (s : List Char) : Prop :=
  ∀ before run after : List Char, s = before ++ run ++ after → (∀ ch ∈ run, ch.isDigit = true) →
    (∀ ch ∈ before.getLast?, ch.isDigit = false) → NoDigit after → decimalValue run < UInt32.size

/-- From wherever digits are read, they denote a number of 32 bits. -/
def DigitsFit (s : List Char) : Prop :=
  ∀ t, t <:+ s → decimalValue (t.takeWhile Char.isDigit) < UInt32.size

theorem DigitsFit.suffix (h : DigitsFit s) (hSuffix : t <:+ s) : DigitsFit t :=
  fun u hu => h u (hu.trans hSuffix)

theorem digitsFit_nil : DigitsFit [] := by
  intro t ht
  rw [List.suffix_nil.1 ht]
  decide

theorem digitsFit_cons {ch : Char} :
    DigitsFit (ch :: s) ↔
      decimalValue ((ch :: s).takeWhile Char.isDigit) < UInt32.size ∧ DigitsFit s := by
  simp only [DigitsFit, List.suffix_cons_iff, forall_eq_or_imp]

instance decidableDigitsFit : ∀ s, Decidable (DigitsFit s)
  | [] => .isTrue digitsFit_nil
  | _ :: s =>
    have := decidableDigitsFit s
    decidable_of_iff _ digitsFit_cons.symm

/-- Digits in front of a number do not make it smaller. -/
theorem decimalValue_le_append (before digits : List Char) :
    decimalValue digits ≤ decimalValue (before ++ digits) := by
  have hAppend : decimalValue (before ++ digits) =
      Nat.ofDigitChars 10 digits (decimalValue before) := Nat.ofDigitChars_append 0
  rw [hAppend, Nat.ofDigitChars_eq_ofDigitChars_zero]
  exact Nat.le_add_left _ _

theorem digitRunsFit_iff : DigitRunsFit s ↔ DigitsFit s := by
  constructor
  · -- The digits that `t` begins with are the end of a run that begins further to the left.
    rintro h t ⟨before, rfl⟩
    refine Nat.lt_of_le_of_lt
      (decimalValue_le_append (before.rtakeWhile Char.isDigit) (t.takeWhile Char.isDigit))
      (h (before.rdropWhile Char.isDigit) _ (t.dropWhile Char.isDigit) ?_ ?_ ?_
        (noDigit_dropWhile t))
    · rw [List.append_assoc, List.append_assoc, List.takeWhile_append_dropWhile,
        ← List.append_assoc, List.rdropWhile_append_rtakeWhile]
    · intro ch hch
      rcases List.mem_append.1 hch with hch | hch
      · exact List.mem_rtakeWhile_imp hch
      · exact List.all_eq_true.1 List.all_takeWhile ch hch
    · intro ch hch
      have hSome : before.rdropWhile Char.isDigit ≠ [] := by
        intro hNone
        rw [hNone] at hch
        cases hch
      rw [List.getLast?_eq_some_getLast hSome] at hch
      cases hch
      simpa using List.rdropWhile_last_not Char.isDigit before hSome
  · rintro h before run after rfl hRun - hAfter
    have hFits := h (run ++ after) ⟨before, by rw [List.append_assoc]⟩
    cases hEmpty : run with
    | nil => decide
    | cons d ds =>
      subst hEmpty
      have hNumber := Number.intro (List.cons_ne_nil d ds) hRun after
      rwa [(hNumber.spec hAfter).2.1] at hFits

/-! ## What is left of a text -/

namespace Grammar

theorem Number.suffix {n : Nat} (h : Number s n t) : t <:+ s := by
  cases h with
  | intro => exact List.suffix_append _ t

theorem UpperBound.suffix {min : Nat} {max : Option Nat} (h : UpperBound min s max t) :
    t <:+ s := by
  cases h with
  | same => exact List.suffix_cons _ t
  | absent => exact (List.suffix_cons _ t).trans (List.suffix_cons _ _)
  | given h => exact (List.suffix_cons _ t).trans (h.suffix.trans (List.suffix_cons _ _))

theorem Quantified.suffix {q : Quantifier} (h : Quantified s q t) : t <:+ s := by
  cases h with
  | star => exact List.suffix_cons _ t
  | plus => exact List.suffix_cons _ t
  | mark => exact List.suffix_cons _ t
  | braces hForm _ =>
    cases hForm with
    | intro hMin hMax => exact (hMax.suffix.trans hMin.suffix).trans (List.suffix_cons _ _)

theorem Members.suffix {members : List Char} (h : Members s members t) : t <:+ s := by
  induction h with
  | close t => exact List.suffix_cons _ t
  | escaped c _ ih => exact ih.trans ((List.suffix_cons _ _).trans (List.suffix_cons _ _))
  | plain _ _ ih => exact ih.trans (List.suffix_cons _ _)

theorem Leaf.suffix {set : CharSet} (h : Leaf depth s set t) : t <:+ s := by
  cases h with
  | dot => exact List.suffix_cons _ t
  | escaped c => exact (List.suffix_cons _ t).trans (List.suffix_cons _ _)
  | plain => exact List.suffix_cons _ t
  | members h => exact h.suffix.trans (List.suffix_cons _ _)
  | others h => exact h.suffix.trans ((List.suffix_cons _ _).trans (List.suffix_cons _ _))

mutual

theorem Alternation.suffix : ∀ {depth : Nat} {s t : List Char} {r : Regex},
    Alternation depth s r t → t <:+ s
  | _, _, _, _, .single h => h.suffix
  | _, _, _, _, .several hFirst hOthers => hOthers.suffix.trans hFirst.suffix

theorem Branches.suffix : ∀ {depth : Nat} {s t : List Char} {branches : List Regex},
    Branches depth s branches t → t <:+ s
  | _, _, _, _, .nil _ t => List.suffix_refl t
  | _, _, _, _, .cons hFirst hOthers =>
    (hOthers.suffix.trans hFirst.suffix).trans (List.suffix_cons _ _)

theorem Sequence.suffix : ∀ {depth : Nat} {s t : List Char} {items : List (Regex × Quantifier)},
    Sequence depth s items t → t <:+ s
  | _, _, _, _, .nil _ t => List.suffix_refl t
  | _, _, _, _, .once hAtom _ hItems => hItems.suffix.trans hAtom.suffix
  | _, _, _, _, .quantified hAtom hQuantifier hItems =>
    hItems.suffix.trans (hQuantifier.suffix.trans hAtom.suffix)

theorem Atom.suffix : ∀ {depth : Nat} {s t : List Char} {r : Regex},
    Atom depth s r t → t <:+ s
  | _, _, _, _, .leaf h => h.suffix
  | _, _, _, _, .capturing _ hBody =>
    (List.suffix_cons _ _).trans (hBody.suffix.trans (List.suffix_cons _ _))
  | _, _, _, _, .bare _ hBody =>
    (List.suffix_cons _ _).trans (hBody.suffix.trans ((List.suffix_cons _ _).trans
      ((List.suffix_cons _ _).trans (List.suffix_cons _ _))))

end

end Grammar

/-! ## Quantifiers -/

/-- From every place where the text is `s` the reader succeeds, and stops where `t` is left. -/
def Consumes {α : Type} (read : Cursor → Reading α) (s t : List Char) : Prop :=
  ∀ c : Cursor, c.rest = s → ∃ a c', read c = .ok (a, c') ∧ c'.rest = t

theorem readNumber_ok (hFits : DigitsFit c.rest) : ∃ n c', readNumber c = .ok (n, c') := by
  unfold readNumber
  split
  · exact ⟨_, _, rfl⟩
  · dsimp only
    rw [dif_pos (hFits _ (List.suffix_refl _))]
    exact ⟨_, _, rfl⟩

theorem readUpperBound_ok (min : UInt32) (hFits : DigitsFit c.rest) :
    ∃ max c', readUpperBound min c = .ok (max, c') := by
  unfold readUpperBound
  split
  · refine readNumber_ok (hFits.suffix ?_)
    rw [Cursor.next_rest]
    exact List.tail_suffix c.rest
  · exact ⟨_, _, rfl⟩

/-- Braces are refused only if the bounds in them are out of order. -/
theorem readBraces_ok (hRest : c.rest = '\x7b' :: s) (hFits : DigitsFit c.rest) :
    (∃ q c', readBraces c = .ok (q, c')) ∨
      ∃ min max t, BraceForm c.rest min (some max) t ∧ max < min := by
  have hNext := Cursor.next_rest_of_cons hRest
  have hFitsNext : DigitsFit c.next.rest := by
    rw [hNext]
    exact hFits.suffix (hRest ▸ List.suffix_cons _ s)
  obtain ⟨n, c₁, hMin⟩ := readNumber_ok hFitsNext
  unfold readBraces
  rw [hMin]
  obtain ⟨-, ⟨rfl, rfl⟩ | ⟨min, rfl, hNumber⟩⟩ := readNumber_spec hMin
  · exact .inl ⟨_, _, rfl⟩
  · obtain ⟨max, c₂, hMax⟩ := readUpperBound_ok min (hFitsNext.suffix hNumber.suffix)
    simp only [hMax]
    split
    · rename_i t hClose
      split
      · rename_i hLow
        obtain ⟨max, rfl, hLow⟩ := (Option.any_eq_true _ _).1 hLow
        refine .inr ⟨min.toNat, max.toNat, t, ?_, UInt32.lt_iff_toNat_lt.1 (by simpa using hLow)⟩
        rw [hRest, ← hNext]
        exact .intro hNumber ((readUpperBound_iff hMax).2 ⟨rfl, hClose⟩)
      · exact .inl ⟨_, _, rfl⟩
    · exact .inl ⟨_, _, rfl⟩

theorem Grammar.Quantified.consumes {q : Quantifier} (h : Quantified s q t) (hFits : DigitsFit s) :
    Consumes readQuantifier s t := by
  intro c hRest
  have hWhole := h
  cases h with
  | star => exact ⟨.zeroOrMore, c.next, by simp [readQuantifier, hRest], c.next_rest_of_cons hRest⟩
  | plus => exact ⟨.oneOrMore, c.next, by simp [readQuantifier, hRest], c.next_rest_of_cons hRest⟩
  | mark => exact ⟨.zeroOrOne, c.next, by simp [readQuantifier, hRest], c.next_rest_of_cons hRest⟩
  | braces hForm hOrder =>
    subst hRest
    obtain ⟨u, hRest⟩ : ∃ u, c.rest = '\x7b' :: u := by
      generalize c.rest = s at hForm
      cases hForm
      exact ⟨_, rfl⟩
    have hBraces : readQuantifier c = readBraces c := by
      simp only [readQuantifier, hRest]
    rw [hBraces]
    rcases readBraces_ok hRest hFits with ⟨q', c', hRead⟩ | ⟨min, max, v, hForm', hLow⟩
    · rcases readBraces_spec hRest hRead with hQuantified | ⟨-, -, hBare⟩
      · exact ⟨q', c', hRead, (hQuantified.unique hWhole).2⟩
      · exact (hBare ⟨_, _, _, hForm⟩).elim
    · -- The bounds are refused as those of the same brace form, in which they are in order.
      obtain ⟨rfl, hMax, -⟩ := hForm.unique hForm'
      obtain ⟨max, hMax', rfl⟩ := Option.map_eq_some_iff.1 hMax
      exact absurd (UInt32.le_iff_toNat_le.1 (hOrder max hMax')) (Nat.not_le_of_lt hLow)

/-- Without a quantifier nothing is read. -/
theorem readQuantifier_bare (hBare : ¬ OpensBraces s)
    (hHead : ∀ ch u, s = ch :: u → ch ∉ ['*', '+', '?']) (hFits : DigitsFit s) :
    Consumes readQuantifier s s := by
  rintro c rfl
  unfold readQuantifier
  split
  · rename_i hRest
    simpa using hHead _ _ hRest
  · rename_i hRest
    simpa using hHead _ _ hRest
  · rename_i hRest
    simpa using hHead _ _ hRest
  · rename_i hRest
    rcases readBraces_ok hRest hFits with ⟨q, c', hRead⟩ | ⟨min, max, t, hForm, -⟩
    · rcases readBraces_spec hRest hRead with hQuantified | ⟨-, rfl, -⟩
      · rw [hRest] at hQuantified hBare
        cases hQuantified with
        | braces hForm _ => exact (hBare ⟨_, _, _, hForm⟩).elim
      · exact ⟨q, c', hRead, rfl⟩
    · exact (hBare ⟨_, _, _, hForm⟩).elim
  · exact ⟨_, _, rfl, rfl⟩

/-! ## Characters -/

theorem Grammar.Members.consumes {members : List Char} (h : Members s members t) (nextId pos : Nat)
    (before : List Char) :
    ∃ found c', readMembers nextId pos before s = .ok (found, c') ∧ c'.rest = t := by
  induction h generalizing pos before with
  | close t => exact ⟨_, _, rfl, rfl⟩
  | escaped c _ ih =>
    rw [readMembers]
    exact ih _ _
  | plain hPlain _ ih =>
    unfold readMembers
    split
    case h_6 hCons =>
      cases hCons
      exact ih _ _
    all_goals simp_all

theorem Grammar.Leaf.consumes {set : CharSet} (h : Leaf depth s set t) (group : Consumer Regex) :
    Consumes (readAtomWith group).read s t := by
  intro c hRest
  change ∃ r c', readAtomBody group c = .ok (r, c') ∧ _
  unfold readAtomBody
  rw [hRest]
  cases h with
  | dot => exact ⟨_, _, rfl, Cursor.next_rest_of_cons hRest⟩
  | escaped ch t =>
    have hChar := Cursor.next_rest_of_cons hRest
    simp only [readEscape, hChar]
    exact ⟨_, _, rfl, Cursor.next_rest_of_cons hChar⟩
  | plain hPlain hClose t =>
    split
    case h_6 hCons =>
      cases hCons
      rw [if_neg (by simp_all)]
      exact ⟨_, _, rfl, Cursor.next_rest_of_cons hRest⟩
    all_goals simp_all
  | @members u _ _ h =>
    have hCaret : ¬ ∃ t, u = '^' :: t := by
      rintro ⟨t, rfl⟩
      cases h with
      | plain hPlain => simp at hPlain
    obtain ⟨-, hStart⟩ := openClass_of_not_caret hRest hCaret
    obtain ⟨found, c', hRead, hLeft⟩ := (hStart ▸ h).consumes (openClass c).2.nextId
      (openClass c).2.pos []
    simp only [readClass, hRead]
    exact ⟨_, _, rfl, hLeft⟩
  | others h =>
    obtain ⟨-, hStart⟩ := openClass_of_caret hRest
    obtain ⟨found, c', hRead, hLeft⟩ := (hStart ▸ h).consumes (openClass c).2.nextId
      (openClass c).2.pos []
    simp only [readClass, hRead]
    exact ⟨_, _, rfl, hLeft⟩

/-! ## Regexes -/

section

variable {nested : Bool} {atom : Consumer Regex} {u v : List Char}

theorem readItems_consumes_nil (hEnds : endsSequence nested s = true) :
    Consumes (readItems nested atom) s s := by
  rintro c rfl
  rw [readItems, if_pos hEnds]
  exact ⟨_, _, rfl, rfl⟩

theorem readItems_consumes_cons (hGoes : endsSequence nested s = false)
    (hAtom : Consumes atom.read s t) (hQuantifier : Consumes readQuantifier t u)
    (hItems : Consumes (readItems nested atom) u v) : Consumes (readItems nested atom) s v := by
  rintro c rfl
  obtain ⟨r, c₁, hAtom, hRest₁⟩ := hAtom c rfl
  obtain ⟨q, c₂, hQuantifier, hRest₂⟩ := hQuantifier c₁ hRest₁
  obtain ⟨items, c₃, hItems, hRest₃⟩ := hItems c₂ hRest₂
  refine ⟨(r, q) :: items, c₃, ?_, hRest₃⟩
  simp only [readItems_of_goes hGoes, hAtom, hQuantifier, hItems, Except.bind, Except.map]

theorem readSequence_consumes (hItems : Consumes (readItems nested atom) s t) :
    Consumes (readSequence nested atom) s t := by
  intro c hRest
  obtain ⟨items, c', hItems, hRest'⟩ := hItems c hRest
  exact ⟨.seq items, c', by simp only [readSequence, hItems], hRest'⟩

theorem readBranches_consumes_nil (hBar : ¬ ∃ t, s = '|' :: t) :
    Consumes (readBranches nested atom) s s := by
  rintro c rfl
  rw [readBranches]
  split
  · rename_i hRest
    exact (hBar ⟨_, hRest⟩).elim
  · exact ⟨_, _, rfl, rfl⟩

theorem readBranches_consumes_cons (hFirst : Consumes (readSequence nested atom) s t)
    (hOthers : Consumes (readBranches nested atom) t u) :
    Consumes (readBranches nested atom) ('|' :: s) u := by
  intro c hRest
  obtain ⟨r, c₁, hFirst, hRest₁⟩ := hFirst c.next (Cursor.next_rest_of_cons hRest)
  obtain ⟨branches, c₂, hOthers, hRest₂⟩ := hOthers c₁ hRest₁
  refine ⟨r :: branches, c₂, ?_, hRest₂⟩
  rw [readBranches]
  split
  · split
    · simp_all
    · rename_i hFirst'
      cases hFirst.symm.trans hFirst'
      simp only [hOthers]
  · simp_all

theorem readAlternation_consumes (hFirst : Consumes (readSequence nested atom) s t)
    (hOthers : Consumes (readBranches nested atom) t u) :
    Consumes (readAlternation nested atom) s u := by
  intro c hRest
  obtain ⟨first, c₁, hFirst, hRest₁⟩ := hFirst c hRest
  obtain ⟨branches, c₂, hOthers, hRest₂⟩ := hOthers c₁ hRest₁
  simp only [readAlternation, hFirst, hOthers]
  cases branches with
  | nil => exact ⟨_, _, rfl, hRest₂⟩
  | cons => exact ⟨_, _, rfl, hRest₂⟩

theorem readGroupBody_consumes (hBody : Consumes (readAlternation true atom) s (')' :: t))
    {c : Cursor} (hOpen : (openGroup c).2.rest = s) :
    ∃ r c', readGroupBody atom c = .ok (r, c') ∧ c'.rest = t := by
  obtain ⟨body, c₁, hBody, hRest⟩ := hBody _ hOpen
  simp only [readGroupBody, hBody, hRest]
  exact ⟨_, _, rfl, Cursor.next_rest_of_cons hRest⟩

end

theorem Grammar.Ends.endsSequence (h : Ends depth s) : endsSequence (0 < depth) s = true := by
  cases h with
  | done => rfl
  | bar => rfl
  | paren hDepth => simp [BacktrackRegex.endsSequence, hDepth]

theorem Grammar.Atom.endsSequence_eq_false {r : Regex} (h : Atom depth s r t) :
    endsSequence (0 < depth) s = false := by
  obtain ⟨ch, u, rfl, hStart, hClose⟩ := h.starts
  have hBar : ch ≠ '|' := by
    rintro rfl
    simp at hStart
  by_cases hParen : ch = ')'
  · simp [endsSequence, hBar, hClose hParen]
  · simp [endsSequence, hBar, hParen]

theorem Grammar.Closes.not_bar (h : Closes depth s) : ¬ ∃ t, s = '|' :: t := by
  rintro ⟨t, rfl⟩
  cases h

theorem readAtom_consumes_leaf {set : CharSet} (h : Leaf depth s set t) (levels : Nat) :
    Consumes (readAtom levels).read s t := by
  cases levels with
  | zero => exact h.consumes .refuse
  | succ levels => exact h.consumes (readGroup (readAtom levels))

/-- A group that may be opened is read, if its body is read with one level of groups less. -/
theorem readAtom_consumes_group (hDepth : depth < maxNesting)
    (hBody : Consumes (readAlternation true (readAtom (maxNesting - (depth + 1)))) s (')' :: t))
    {u : List Char} (hRest : c.rest = '(' :: u) (hOpen : (openGroup c).2.rest = s) :
    ∃ r c', (readAtom (maxNesting - depth)).read c = .ok (r, c') ∧ c'.rest = t := by
  rw [show maxNesting - depth = maxNesting - (depth + 1) + 1 by omega]
  change ∃ r c', readAtomBody (readGroup _) c = .ok (r, c') ∧ _
  simp only [readAtomBody, hRest]
  exact readGroupBody_consumes hBody hOpen

mutual

theorem Grammar.Alternation.consumes : ∀ {depth : Nat} {s t : List Char} {r : Regex},
    Alternation depth s r t → Closes depth t → DigitsFit s →
    Consumes (readAlternation (0 < depth) (readAtom (maxNesting - depth))) s t
  | _, _, _, _, .single h, hCloses, hFits =>
    readAlternation_consumes (readSequence_consumes (h.consumes hCloses.ends hFits))
      (readBranches_consumes_nil hCloses.not_bar)
  | _, _, _, _, .several hFirst hOthers, hCloses, hFits =>
    readAlternation_consumes
      (readSequence_consumes (hFirst.consumes (hOthers.ends hCloses) hFits))
      (hOthers.consumes hCloses (hFits.suffix hFirst.suffix))

theorem Grammar.Branches.consumes : ∀ {depth : Nat} {s t : List Char} {branches : List Regex},
    Branches depth s branches t → Closes depth t → DigitsFit s →
    Consumes (readBranches (0 < depth) (readAtom (maxNesting - depth))) s t
  | _, _, _, _, .nil _ _, hCloses, _ => readBranches_consumes_nil hCloses.not_bar
  | _, _, _, _, .cons hFirst hOthers, hCloses, hFits =>
    have hFits' := hFits.suffix (List.suffix_cons _ _)
    readBranches_consumes_cons
      (readSequence_consumes (hFirst.consumes (hOthers.ends hCloses) hFits'))
      (hOthers.consumes hCloses (hFits'.suffix hFirst.suffix))

theorem Grammar.Sequence.consumes : ∀ {depth : Nat} {s t : List Char}
    {items : List (Regex × Quantifier)}, Sequence depth s items t → Ends depth t → DigitsFit s →
    Consumes (readItems (0 < depth) (readAtom (maxNesting - depth))) s t
  | _, _, _, _, .nil _ _, hEnds, _ => readItems_consumes_nil hEnds.endsSequence
  | _, _, _, _, .once hAtom hBare hItems, hEnds, hFits =>
    have hFits' := hFits.suffix hAtom.suffix
    readItems_consumes_cons hAtom.endsSequence_eq_false (hAtom.consumes hFits)
      (readQuantifier_bare hBare (fun _ _ => hItems.head_not_mem hEnds) hFits')
      (hItems.consumes hEnds hFits')
  | _, _, _, _, .quantified hAtom hQuantifier hItems, hEnds, hFits =>
    have hFits' := hFits.suffix hAtom.suffix
    readItems_consumes_cons hAtom.endsSequence_eq_false (hAtom.consumes hFits)
      (hQuantifier.consumes hFits') (hItems.consumes hEnds (hFits'.suffix hQuantifier.suffix))

theorem Grammar.Atom.consumes : ∀ {depth : Nat} {s t : List Char} {r : Regex},
    Atom depth s r t → DigitsFit s → Consumes (readAtom (maxNesting - depth)).read s t
  | _, _, _, _, .leaf h, _ => readAtom_consumes_leaf h _
  | _, _, _, _, .capturing hDepth hBody, hFits => fun _ hRest =>
    readAtom_consumes_group hDepth
      (hBody.consumes (.paren (Nat.succ_pos _) _) (hFits.suffix (List.suffix_cons _ _))) hRest
      (openGroup_of_not_mark hRest fun ⟨_, hMark⟩ =>
        (hMark ▸ hBody).not_mark (.paren (Nat.succ_pos _) _)).2
  | _, _, _, _, .bare hDepth hBody, hFits => fun _ hRest =>
    readAtom_consumes_group hDepth
      (hBody.consumes (.paren (Nat.succ_pos _) _) (hFits.suffix ((List.suffix_cons _ _).trans
        ((List.suffix_cons _ _).trans (List.suffix_cons _ _))))) hRest
      (openGroup_of_mark hRest).2

end

/-- A pattern that the grammar derives is read, if its digits denote bounds. -/
theorem parse_ok {pattern : String} {r : Regex} (h : Derives pattern.toList r)
    (hFits : DigitsFit pattern.toList) : ∃ r', parse pattern = .ok r' := by
  obtain ⟨r', c', hRead, hRest⟩ := h.consumes .done hFits (.start pattern.toList) rfl
  refine ⟨r', ?_⟩
  simp only [parse, readPattern]
  rw [hRead]
  simp [hRest]

end BacktrackRegex
