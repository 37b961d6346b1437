import BacktrackRegex.Proofs.Pattern.Canonical

/-!
# Printing regexes as patterns

A regex is printed with every character escaped, and with every quantifier in braces that is not
the one an item has without being given any.  What is printed is read back as the same regex: an
escaped character is never mistaken for anything else, the only digits that are not escaped are
those of bounds, and a printed atom never begins with a brace.

* `Regex.pattern` — the pattern printed from a regex;
* `Regex.print_derives` — the grammar derives the regex from it;
* `Regex.print_fits` — its digits denote bounds;
* `canonical_parse_pattern` — patterns are read as canonical regexes, and as all of them.
-/

set_option autoImplicit false

namespace BacktrackRegex

open Grammar

/-! ## The printer -/

/-- The characters, each with a backslash before it. -/
def printEscaped : List Char → List Char
  | [] => []
  | c :: chars => '\\' :: c :: printEscaped chars

/-- A single-character piece as pattern text. -/
def CharSet.print : CharSet → List Char
  | .any => ['.']
  | .only c => ['\\', c]
  | .members false chars => '[' :: printEscaped chars ++ [']']
  | .members true chars => '[' :: '^' :: printEscaped chars ++ [']']

/-- What stands in braces after the lower bound, with the closing brace. -/
def printUpperBound : Option UInt32 → List Char
  | none => [',', '\x7d']
  | some max => ',' :: Nat.toDigits 10 max.toNat ++ ['\x7d']

/-- A quantifier as pattern text: nothing if it is that of an item without one. -/
def Quantifier.print (q : Quantifier) : List Char :=
  if q = .once then [] else '\x7b' :: Nat.toDigits 10 q.min.toNat ++ printUpperBound q.max

mutual

/-- A regex as pattern text. -/
def Regex.print : Regex → List Char
  | .seq items => printItems items
  | .alt branches => (printBranches branches).tail
  | .group none body => '(' :: '?' :: ':' :: body.print ++ [')']
  | .group (some _) body => '(' :: body.print ++ [')']
  | .leaf set => set.print

/-- The items of a sequence as pattern text. -/
def printItems : List (Regex × Quantifier) → List Char
  | [] => []
  | (r, q) :: items => r.print ++ q.print ++ printItems items

/-- The branches of an alternation as pattern text, with a bar before each. -/
def printBranches : List Regex → List Char
  | [] => []
  | r :: branches => '|' :: r.print ++ printBranches branches

end

/-- The pattern printed from a regex. -/
def Regex.pattern (r : Regex) : String := String.ofList r.print

/-! ## The grammar derives what is printed -/

section

variable {depth : Nat} {t : List Char}

theorem decimalValue_toDigits (n : Nat) : decimalValue (Nat.toDigits 10 n) = n :=
  Nat.ofDigitChars_ten_toDigits

theorem toDigits_number (n : Nat) (t : List Char) : Number (Nat.toDigits 10 n ++ t) n t := by
  have hNumber := Number.intro (Nat.toDigits_ne_nil (n := n) (b := 10))
    (fun _ => Nat.isDigit_of_mem_toDigits (by decide) (by decide)) t
  rwa [decimalValue_toDigits] at hNumber

theorem printUpperBound_derives (min : Nat) (max : Option UInt32) (t : List Char) :
    UpperBound min (printUpperBound max ++ t) (max.map UInt32.toNat) t := by
  cases max with
  | none => exact .absent t
  | some max =>
    simp only [printUpperBound, List.cons_append, List.append_assoc, List.nil_append]
    exact .given (toDigits_number max.toNat ('\x7d' :: t))

/-- A quantifier is printed so that it can be told from none. -/
theorem Quantifier.print_derives {q : Quantifier} (hOrder : q.Ordered) (hOnce : q ≠ .once)
    (t : List Char) : Quantified (q.print ++ t) q t := by
  simp only [Quantifier.print, if_neg hOnce, List.cons_append, List.append_assoc]
  exact .braces (.intro (toDigits_number _ _) (printUpperBound_derives _ _ t)) hOrder

theorem printEscaped_derives (chars : List Char) (t : List Char) :
    Members (printEscaped chars ++ ']' :: t) chars t := by
  induction chars with
  | nil => exact .close t
  | cons c chars ih => exact .escaped c ih

theorem eraseDups_of_nodup {chars : List Char} (h : chars.Nodup) : chars.eraseDups = chars := by
  induction chars with
  | nil => rfl
  | cons c chars ih =>
    obtain ⟨hNew, hOthers⟩ := List.nodup_cons.1 h
    have hKeep : chars.filter (fun d => !d == c) = chars := by
      refine List.filter_eq_self.2 fun d hd => ?_
      have hOther : d ≠ c := fun hSame => hNew (hSame ▸ hd)
      simpa using hOther
    rw [List.eraseDups_cons, hKeep, ih hOthers]

theorem CharSet.print_derives {set : CharSet} (h : set.Distinct) (depth : Nat) (t : List Char) :
    Leaf depth (set.print ++ t) set t := by
  cases set with
  | any => exact .dot t
  | only c => exact .escaped c t
  | members negated chars =>
    have hMembers := printEscaped_derives chars t
    have hChars := eraseDups_of_nodup h
    cases negated with
    | false =>
      have hLeaf : Leaf depth _ _ t := .members hMembers
      rw [hChars] at hLeaf
      simpa [CharSet.print] using hLeaf
    | true =>
      have hLeaf : Leaf depth _ _ t := .others hMembers
      rw [hChars] at hLeaf
      simpa [CharSet.print] using hLeaf

/-- A text that begins with another character than a brace opens no brace form. -/
theorem not_opensBraces_cons {c : Char} (hc : c ≠ '\x7b') (t : List Char) :
    ¬ OpensBraces (c :: t) := by
  rintro ⟨_, _, _, ⟨_, _⟩⟩
  exact hc rfl

theorem not_opensBraces_nil : ¬ OpensBraces [] := by
  rintro ⟨_, _, _, hForm⟩
  nomatch hForm

theorem Regex.IsAtom.print_not_opensBraces {r : Regex} (h : r.IsAtom) (t : List Char) :
    ¬ OpensBraces (r.print ++ t) := by
  cases r with
  | seq => exact h.elim
  | alt => exact h.elim
  | group id => cases id <;> exact not_opensBraces_cons (by decide) _
  | leaf set =>
    cases set with
    | any => exact not_opensBraces_cons (by decide) _
    | only => exact not_opensBraces_cons (by decide) _
    | members negated => cases negated <;> exact not_opensBraces_cons (by decide) _

theorem AreItems.print_not_opensBraces {items : List (Regex × Quantifier)} (h : AreItems items)
    (hBare : ¬ OpensBraces t) : ¬ OpensBraces (printItems items ++ t) := by
  cases items with
  | nil => exact hBare
  | cons item items =>
    obtain ⟨r, q⟩ := item
    simp only [printItems, List.append_assoc]
    exact h.1.print_not_opensBraces _

theorem printBranches_not_opensBraces (branches : List Regex) (hBare : ¬ OpensBraces t) :
    ¬ OpensBraces (printBranches branches ++ t) := by
  cases branches with
  | nil => exact hBare
  | cons => exact not_opensBraces_cons (by decide) _

mutual

/-- The grammar derives the shape of the regex from what is printed, with any text after it that is
no quantifier in braces. -/
theorem Regex.IsBody.print_derives : ∀ {r : Regex} {depth : Nat} {t : List Char}, r.IsBody →
    depth + r.nesting ≤ maxNesting → ¬ OpensBraces t →
    Alternation depth (r.print ++ t) r.anonymous t
  | .seq _, _, _, h, hNesting, hBare => .single (AreItems.print_derives h hNesting hBare)
  | .alt [], _, _, h, _, _ => nomatch h.1
  | .alt [_], _, _, h, _, _ => nomatch Nat.lt_of_succ_lt_succ h.1
  | .alt (r :: branch :: branches), depth, t, ⟨_, hFirst, hOthers⟩, hNesting, hBare => by
    have hDepth : depth + r.nesting ≤ maxNesting ∧
        depth + branchesNesting (branch :: branches) ≤ maxNesting := by
      rw [Regex.nesting, branchesNesting] at hNesting
      omega
    obtain ⟨items, hShape, hItems⟩ := Regex.IsSequence.print_derives hFirst hDepth.1
      (printBranches_not_opensBraces (branch :: branches) hBare)
    have hBranches := AreSequences.print_derives hOthers hDepth.2 hBare
    rw [Regex.anonymous, branchesAnonymous, hShape, Regex.print, printBranches, List.cons_append,
      List.tail_cons, List.append_assoc]
    exact .several hItems hBranches

theorem Regex.IsSequence.print_derives : ∀ {r : Regex} {depth : Nat} {t : List Char},
    r.IsSequence → depth + r.nesting ≤ maxNesting → ¬ OpensBraces t →
    ∃ items, r.anonymous = .seq items ∧ Sequence depth (r.print ++ t) items t
  | .seq items, _, _, h, hNesting, hBare =>
    ⟨itemsAnonymous items, rfl, AreItems.print_derives h hNesting hBare⟩
  | .alt _, _, _, h, _, _ => h.elim
  | .group _ _, _, _, h, _, _ => h.elim
  | .leaf _, _, _, h, _, _ => h.elim

theorem AreSequences.print_derives : ∀ {branches : List Regex} {depth : Nat} {t : List Char},
    AreSequences branches → depth + branchesNesting branches ≤ maxNesting → ¬ OpensBraces t →
    Branches depth (printBranches branches ++ t) (branchesAnonymous branches) t
  | [], depth, t, _, _, _ => .nil depth t
  | r :: branches, depth, t, ⟨hFirst, hOthers⟩, hNesting, hBare => by
    have hDepth : depth + r.nesting ≤ maxNesting ∧
        depth + branchesNesting branches ≤ maxNesting := by
      rw [branchesNesting] at hNesting
      omega
    obtain ⟨items, hShape, hItems⟩ := Regex.IsSequence.print_derives hFirst hDepth.1
      (printBranches_not_opensBraces branches hBare)
    rw [branchesAnonymous, hShape, printBranches, List.cons_append, List.cons_append,
      List.append_assoc]
    exact .cons hItems (AreSequences.print_derives hOthers hDepth.2 hBare)

theorem AreItems.print_derives : ∀ {items : List (Regex × Quantifier)} {depth : Nat}
    {t : List Char}, AreItems items → depth + itemsNesting items ≤ maxNesting → ¬ OpensBraces t →
    Sequence depth (printItems items ++ t) (itemsAnonymous items) t
  | [], depth, t, _, _, _ => .nil depth t
  | (r, q) :: items, depth, t, ⟨hAtom, hOrder, hItems⟩, hNesting, hBare => by
    have hDepth : depth + r.nesting ≤ maxNesting ∧ depth + itemsNesting items ≤ maxNesting := by
      simp only [itemsNesting] at hNesting
      omega
    have hItems' := hItems.print_derives hDepth.2 hBare
    simp only [printItems, List.append_assoc]
    by_cases hOnce : q = .once
    · subst hOnce
      exact .once (hAtom.print_derives hDepth.1 _) (hItems.print_not_opensBraces hBare) hItems'
    · exact .quantified (hAtom.print_derives hDepth.1 _) (q.print_derives hOrder hOnce _) hItems'

theorem Regex.IsAtom.print_derives : ∀ {r : Regex} {depth : Nat}, r.IsAtom →
    depth + r.nesting ≤ maxNesting → ∀ t, Atom depth (r.print ++ t) r.anonymous t
  | .seq _, _, h, _, _ => h.elim
  | .alt _, _, h, _, _ => h.elim
  | .group id body, depth, h, hNesting, t => by
    have hDepth : depth < maxNesting ∧ depth + 1 + body.nesting ≤ maxNesting := by
      simp only [Regex.nesting] at hNesting
      omega
    have hBody := Regex.IsBody.print_derives (r := body) h hDepth.2
      (not_opensBraces_cons (c := ')') (by decide) t)
    cases id with
    | none => simpa [Regex.print, Regex.anonymous] using Atom.bare hDepth.1 hBody
    | some id => simpa [Regex.print, Regex.anonymous] using Atom.capturing hDepth.1 hBody
  | .leaf set, depth, h, _, t => .leaf (CharSet.print_derives h depth t)

end

/-! ## The digits of what is printed -/

/-- The digits of the text denote bounds, and no digits before it go on in it. -/
structure DigitsApart (t : List Char) : Prop where
  noDigit : NoDigit t
  fits : DigitsFit t

theorem DigitsApart.nil : DigitsApart [] := ⟨fun _ _ h => (nomatch h), digitsFit_nil⟩

theorem DigitsApart.cons {c : Char} (hc : c.isDigit = false) (h : DigitsFit t) :
    DigitsApart (c :: t) := by
  refine ⟨noDigit_cons hc t, digitsFit_cons.2 ⟨?_, h⟩⟩
  rw [List.takeWhile_cons_of_neg (by simp [hc])]
  decide

/-- Digits that denote a bound may stand before a text that begins with none. -/
theorem DigitsApart.append_digits {digits : List Char} (h : DigitsApart t)
    (hDigits : ∀ c ∈ digits, c.isDigit = true) (hValue : decimalValue digits < UInt32.size) :
    DigitsFit (digits ++ t) := by
  induction digits with
  | nil => exact h.fits
  | cons d digits ih =>
    have hLess := decimalValue_le_append [d] digits
    rw [List.singleton_append] at hLess
    have hNumber := Number.intro (List.cons_ne_nil d digits) hDigits t
    have hWhole := (hNumber.spec h.noDigit).2.1
    exact digitsFit_cons.2 ⟨hWhole.trans_lt hValue,
      ih (fun c hc => hDigits c (List.mem_cons_of_mem d hc)) (by omega)⟩

theorem DigitsApart.append_toDigits (h : DigitsApart t) (n : UInt32) :
    DigitsFit (Nat.toDigits 10 n.toNat ++ t) := by
  refine h.append_digits (fun _ => Nat.isDigit_of_mem_toDigits (by decide) (by decide)) ?_
  rw [decimalValue_toDigits]
  exact n.toNat_lt_size

/-- A single digit denotes a bound. -/
theorem DigitsApart.escaped (h : DigitsApart t) (c : Char) : DigitsApart ('\\' :: c :: t) := by
  refine .cons (by decide) ?_
  cases hc : c.isDigit with
  | false => exact (DigitsApart.cons hc h.fits).fits
  | true =>
    change DigitsFit ([c] ++ t)
    refine h.append_digits (by simpa using hc) ?_
    have hBelow : c.toNat < UInt32.size := c.val.toNat_lt_size
    simp only [decimalValue, digitValue, List.foldl_cons, List.foldl_nil]
    omega

theorem printEscaped_apart (chars : List Char) (h : DigitsApart t) :
    DigitsApart (printEscaped chars ++ t) := by
  induction chars with
  | nil => exact h
  | cons c chars ih => exact ih.escaped c

theorem CharSet.print_apart (set : CharSet) (h : DigitsApart t) : DigitsApart (set.print ++ t) := by
  have hClose : DigitsApart (']' :: t) := .cons (by decide) h.fits
  cases set with
  | any => exact .cons (by decide) h.fits
  | only c => exact h.escaped c
  | members negated chars =>
    have hMembers := printEscaped_apart chars hClose
    cases negated with
    | false =>
      rw [CharSet.print, List.append_assoc]
      exact .cons (by decide) hMembers.fits
    | true =>
      rw [CharSet.print, List.append_assoc]
      exact .cons (by decide) (DigitsApart.cons (by decide) hMembers.fits).fits

theorem printUpperBound_apart (max : Option UInt32) (h : DigitsApart t) :
    DigitsApart (printUpperBound max ++ t) := by
  have hClose : DigitsApart ('\x7d' :: t) := .cons (by decide) h.fits
  cases max with
  | none => exact .cons (by decide) hClose.fits
  | some max =>
    rw [printUpperBound, List.append_assoc]
    exact .cons (by decide) (hClose.append_toDigits max)

theorem Quantifier.print_apart (q : Quantifier) (h : DigitsApart t) :
    DigitsApart (q.print ++ t) := by
  unfold Quantifier.print
  split
  · exact h
  · rw [List.append_assoc]
    exact .cons (by decide) ((printUpperBound_apart q.max h).append_toDigits q.min)

mutual

theorem Regex.print_apart : ∀ (r : Regex) {t : List Char}, DigitsApart t →
    DigitsApart (r.print ++ t)
  | .seq items, _, h => printItems_apart items h
  | .alt [], _, h => h
  | .alt (r :: branches), _, h => by
    rw [Regex.print, printBranches, List.cons_append, List.tail_cons, List.append_assoc]
    exact r.print_apart (printBranches_apart branches h)
  | .group none body, _, h => by
    have hBody := body.print_apart (DigitsApart.cons (c := ')') (by decide) h.fits)
    rw [Regex.print, List.append_assoc]
    exact .cons (by decide) (DigitsApart.cons (by decide)
      (DigitsApart.cons (by decide) hBody.fits).fits).fits
  | .group (some _) body, _, h => by
    have hBody := body.print_apart (DigitsApart.cons (c := ')') (by decide) h.fits)
    rw [Regex.print, List.append_assoc]
    exact .cons (by decide) hBody.fits
  | .leaf set, _, h => set.print_apart h

theorem printItems_apart : ∀ (items : List (Regex × Quantifier)) {t : List Char}, DigitsApart t →
    DigitsApart (printItems items ++ t)
  | [], _, h => h
  | (r, q) :: items, _, h => by
    rw [printItems, List.append_assoc, List.append_assoc]
    exact r.print_apart (q.print_apart (printItems_apart items h))

theorem printBranches_apart : ∀ (branches : List Regex) {t : List Char}, DigitsApart t →
    DigitsApart (printBranches branches ++ t)
  | [], _, h => h
  | r :: branches, _, h => by
    rw [printBranches, List.append_assoc]
    exact .cons (by decide) (r.print_apart (printBranches_apart branches h)).fits

end

end

/-! ## Reading what is printed -/

/-- A canonical regex is what its printed pattern is read as. -/
theorem parse_pattern {r : Regex} (h : r.Canonical) : parse r.pattern = .ok r := by
  have hFits := (r.print_apart .nil).fits
  have hDerives :=
    h.isBody.print_derives ((Nat.zero_add _).trans_le h.nesting_le) not_opensBraces_nil
  rw [List.append_nil] at hFits hDerives
  have hPrinted : r.pattern.toList = r.print := String.toList_ofList
  rw [parse_eq_ok_iff (by rwa [hPrinted]), hPrinted]
  exact ⟨hDerives, h.numbered⟩

/-- Patterns are read as canonical regexes only, and as each of them: a canonical regex is read back
from the pattern printed from it.  Printing what any pattern is read as, and reading that, changes
nothing. -/
theorem canonical_parse_pattern :
    (∀ (pattern : String) (r : Regex), (∃ p, ({ pattern } : Parser).parse = .ok (.ok r, p)) →
      r.Canonical) ∧
    (∀ r : Regex, r.Canonical →
      ∃ p, ({ pattern := r.pattern } : Parser).parse = .ok (.ok r, p)) ∧
    ∀ (pattern : String) (r : Regex), parse pattern = .ok r → parse r.pattern = .ok r := by
  refine ⟨fun pattern r hParse => ?_, fun r hCanonical => ?_, fun pattern r hParse => ?_⟩
  · exact parse_canonical (Parser.parse_new_eq_ok_iff.1 hParse)
  · exact Parser.parse_new_eq_ok_iff.2 (parse_pattern hCanonical)
  · exact parse_pattern (parse_canonical hParse)

/-- A regex in which many a printed piece looks like the beginning of another one: a brace before a
quantifier, a question mark after a parenthesis, a caret and a digit in a class. -/
def Regex.lookalikes : Regex :=
  .seq [(.group (some 1) (.alt [.seq [(.leaf (.only '?'), .once),
      (.leaf (.only '\x7b'), ⟨2, some 30⟩)], .seq []]), .zeroOrMore),
    (.leaf (.members true ['^', '5']), .once),
    (.group none (.seq [(.group (some 2) (.seq []), .once), (.leaf (.only ')'), .once)]),
      .zeroOrOne)]

theorem canonical_parse_pattern_lookalikes :
    Regex.lookalikes.Canonical ∧
      Regex.lookalikes.pattern =
        "(\\?\\\x7b\x7b2,30\x7d|)\x7b0,\x7d[^\\^\\5](?:()\\))\x7b0,1\x7d" ∧
      ∃ p, ({ pattern := Regex.lookalikes.pattern } : Parser).parse =
        .ok (.ok Regex.lookalikes, p) := by
  have hBody : Regex.lookalikes.IsBody := by
    simp [Regex.lookalikes, Regex.IsBody, Regex.IsAtom, Regex.IsSequence, AreItems, AreSequences,
      CharSet.Distinct, Quantifier.Ordered, Quantifier.once, Quantifier.zeroOrMore,
      Quantifier.zeroOrOne]
  have hCanonical : Regex.lookalikes.Canonical := ⟨hBody, by decide, rfl⟩
  exact ⟨hCanonical, by decide +kernel, canonical_parse_pattern.2.1 _ hCanonical⟩

end BacktrackRegex
