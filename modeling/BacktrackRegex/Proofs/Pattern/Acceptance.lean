import BacktrackRegex.Proofs.Pattern.Completeness

/-!
# A pattern is read exactly if the grammar derives it

What the grammar leaves open are the numbers of the capturing groups.  A regex has them back from
its shape once they are known to be consecutive.

* `Regex.eq_of_anonymous` — the shape of a regex and its first number determine it;
* `parse_eq_ok_iff` — the one regex that a pattern is read as;
* `parse_accepts_grammar` — reading, derivations and their uniqueness together.
-/

set_option autoImplicit false

namespace BacktrackRegex

open Grammar

/-! ## Shapes and numbers -/

mutual

theorem Regex.anonymous_groupCount : ∀ r : Regex, r.anonymous.groupCount = r.groupCount
  | .seq items => itemsAnonymous_groupCount items
  | .alt branches => branchesAnonymous_groupCount branches
  | .group id body => by
    rw [Regex.anonymous, Regex.groupCount, Regex.groupCount, Option.isSome_map,
      Regex.anonymous_groupCount body]
  | .leaf _ => rfl

theorem itemsAnonymous_groupCount : ∀ items : List (Regex × Quantifier),
    itemsGroupCount (itemsAnonymous items) = itemsGroupCount items
  | [] => rfl
  | (r, _) :: items => by
    rw [itemsAnonymous, itemsGroupCount, itemsGroupCount, Regex.anonymous_groupCount r,
      itemsAnonymous_groupCount items]

theorem branchesAnonymous_groupCount : ∀ branches : List Regex,
    branchesGroupCount (branchesAnonymous branches) = branchesGroupCount branches
  | [] => rfl
  | r :: branches => by
    rw [branchesAnonymous, branchesGroupCount, branchesGroupCount, Regex.anonymous_groupCount r,
      branchesAnonymous_groupCount branches]

end

theorem Regex.groupCount_eq_of_anonymous {r r' : Regex} (h : r.anonymous = r'.anonymous) :
    r.groupCount = r'.groupCount := by
  rw [← r.anonymous_groupCount, h, r'.anonymous_groupCount]

mutual

/-- Two regexes of one shape whose groups are numbered consecutively, beginning with the same
number, are the same regex. -/
theorem Regex.eq_of_anonymous : ∀ {r r' : Regex} {next : Nat}, r.anonymous = r'.anonymous →
    r.NumberedFrom next → r'.NumberedFrom next → r = r'
  | .seq _, r', _, h, hNumbered, hNumbered' => by
    cases r' with
    | seq items' =>
      exact congrArg Regex.seq (items_eq_of_anonymous (Regex.seq.inj h) hNumbered hNumbered')
    | _ => cases h
  | .alt _, r', _, h, hNumbered, hNumbered' => by
    cases r' with
    | alt branches' =>
      exact congrArg Regex.alt (branches_eq_of_anonymous (Regex.alt.inj h) hNumbered hNumbered')
    | _ => cases h
  | .group id body, r', _, h, hNumbered, hNumbered' => by
    cases r' with
    | group id' body' =>
      obtain ⟨hId, hBody⟩ := Regex.group.inj h
      cases id with
      | none =>
        obtain rfl : id' = none := by simpa using hId.symm
        rw [numberedFrom_group_none] at hNumbered hNumbered'
        rw [Regex.eq_of_anonymous hBody hNumbered hNumbered']
      | some i =>
        obtain ⟨i', rfl, -⟩ := Option.map_eq_some_iff.1 hId.symm
        obtain ⟨rfl, hNumbered⟩ := numberedFrom_group_some.1 hNumbered
        obtain ⟨rfl, hNumbered'⟩ := numberedFrom_group_some.1 hNumbered'
        rw [Regex.eq_of_anonymous hBody hNumbered hNumbered']
    | _ => cases h
  | .leaf _, r', _, h, _, _ => by
    cases r' with
    | leaf set => exact h
    | _ => cases h

theorem items_eq_of_anonymous : ∀ {items items' : List (Regex × Quantifier)} {next : Nat},
    itemsAnonymous items = itemsAnonymous items' → ItemsNumberedFrom items next →
    ItemsNumberedFrom items' next → items = items'
  | [], items', _, h, _, _ => by
    cases items' with
    | nil => rfl
    | cons => cases h
  | (r, q) :: items, items', _, h, hNumbered, hNumbered' => by
    cases items' with
    | nil => cases h
    | cons item items' =>
      obtain ⟨r', q'⟩ := item
      obtain ⟨hFirst, hItems⟩ := List.cons.inj h
      obtain ⟨hRegex, rfl⟩ := Prod.mk.inj hFirst
      obtain ⟨hNumbered, hOthers⟩ := itemsNumberedFrom_cons.1 hNumbered
      obtain ⟨hNumbered', hOthers'⟩ := itemsNumberedFrom_cons.1 hNumbered'
      rw [← Regex.groupCount_eq_of_anonymous hRegex] at hOthers'
      rw [Regex.eq_of_anonymous hRegex hNumbered hNumbered',
        items_eq_of_anonymous hItems hOthers hOthers']

theorem branches_eq_of_anonymous : ∀ {branches branches' : List Regex} {next : Nat},
    branchesAnonymous branches = branchesAnonymous branches' → BranchesNumberedFrom branches next →
    BranchesNumberedFrom branches' next → branches = branches'
  | [], branches', _, h, _, _ => by
    cases branches' with
    | nil => rfl
    | cons => cases h
  | r :: branches, branches', _, h, hNumbered, hNumbered' => by
    cases branches' with
    | nil => cases h
    | cons r' branches' =>
      obtain ⟨hRegex, hBranches⟩ := List.cons.inj h
      obtain ⟨hNumbered, hOthers⟩ := branchesNumberedFrom_cons.1 hNumbered
      obtain ⟨hNumbered', hOthers'⟩ := branchesNumberedFrom_cons.1 hNumbered'
      rw [← Regex.groupCount_eq_of_anonymous hRegex] at hOthers'
      rw [Regex.eq_of_anonymous hRegex hNumbered hNumbered',
        branches_eq_of_anonymous hBranches hOthers hOthers']

end

/-! ## Whole patterns -/

variable {pattern : String} {r : Regex}

/-- A pattern whose digits denote bounds is read as the regex that has its shape from the grammar
and its groups numbered from one. -/
theorem parse_eq_ok_iff (hFits : DigitsFit pattern.toList) :
    parse pattern = .ok r ↔ Derives pattern.toList r.anonymous ∧ r.NumberedFrom 1 := by
  constructor
  · intro hParse
    exact ⟨parse_sound hParse, (parse_reads hParse).2⟩
  · rintro ⟨hDerives, hNumbered⟩
    obtain ⟨r', hParse⟩ := parse_ok hDerives hFits
    have hShape := derives_unique (parse_sound hParse) hDerives
    rw [hParse, Regex.eq_of_anonymous hShape (parse_reads hParse).2 hNumbered]

/-- A parser that has not read anything yet reads the whole pattern. -/
theorem Parser.parse_new (pattern : String) :
    ∃ p, ({ pattern } : Parser).parse = .ok (BacktrackRegex.parse pattern, p) := by
  have hStart : ({ pattern } : Parser).cursor? = some (.start pattern.toList) := by
    simp [Parser.cursor?, dropBytes?, Cursor.start]
  unfold Parser.parse BacktrackRegex.parse
  rw [hStart]
  dsimp only
  split
  · exact ⟨_, rfl⟩
  · exact ⟨_, rfl⟩

theorem Parser.parse_new_eq_ok_iff :
    (∃ p, ({ pattern } : Parser).parse = .ok (.ok r, p)) ↔
      BacktrackRegex.parse pattern = .ok r := by
  obtain ⟨p, hNew⟩ := Parser.parse_new pattern
  rw [hNew]
  simp

/-- A pattern in which every run of digits denotes a number of 32 bits is read if and only if the
grammar derives a regex from it, and is read as that regex, of which there is at most one.  The
numbers of the groups are not the grammar's: they are consecutive from one on. -/
theorem parse_accepts_grammar (pattern : String) (hDigits : DigitRunsFit pattern.toList) :
    (∀ r : Regex,
      (∃ r' p, ({ pattern } : Parser).parse = .ok (.ok r', p) ∧ r'.anonymous = r.anonymous) ↔
        Derives pattern.toList r.anonymous) ∧
    (∀ r : Regex, (∃ p, ({ pattern } : Parser).parse = .ok (.ok r, p)) ↔
      Derives pattern.toList r.anonymous ∧ r.NumberedFrom 1) ∧
    ∀ r r', Derives pattern.toList r → Derives pattern.toList r' → r = r' := by
  have hFits := digitRunsFit_iff.1 hDigits
  refine ⟨fun r => ⟨?_, fun hDerives => ?_⟩, fun r => ?_, fun r r' => derives_unique⟩
  · rintro ⟨r', p, hParse, hShape⟩
    rw [← hShape]
    exact parse_sound (Parser.parse_new_eq_ok_iff.1 ⟨p, hParse⟩)
  · obtain ⟨r', hParse⟩ := parse_ok hDerives hFits
    obtain ⟨p, hNew⟩ := Parser.parse_new_eq_ok_iff.2 hParse
    exact ⟨r', p, hNew, derives_unique (parse_sound hParse) hDerives⟩
  · rw [Parser.parse_new_eq_ok_iff, parse_eq_ok_iff hFits]

/-- The digits of `(?:a{2,30}|[^\]b])*(c{,4)` fit.  Its last brace opens no complete form, and the
grammar derives from it what it is read as. -/
theorem parse_accepts_grammar_braces :
    DigitRunsFit "(?:a\x7b2,30\x7d|[^\\]b])*(c\x7b,4)".toList ∧
      ∃ r, parse "(?:a\x7b2,30\x7d|[^\\]b])*(c\x7b,4)" = .ok r ∧
        Derives "(?:a\x7b2,30\x7d|[^\\]b])*(c\x7b,4)".toList r.anonymous := by
  have hDigits : DigitRunsFit "(?:a\x7b2,30\x7d|[^\\]b])*(c\x7b,4)".toList := by
    rw [digitRunsFit_iff]
    decide +kernel
  have hRead : (parse "(?:a\x7b2,30\x7d|[^\\]b])*(c\x7b,4)").toOption.isSome = true := by
    decide +kernel
  cases hParse : parse "(?:a\x7b2,30\x7d|[^\\]b])*(c\x7b,4)" with
  | error e =>
    rw [hParse] at hRead
    cases hRead
  | ok r =>
    obtain ⟨p, hNew⟩ := Parser.parse_new_eq_ok_iff.2 hParse
    exact ⟨hDigits, r, rfl, ((parse_accepts_grammar _ hDigits).1 r).1 ⟨r, p, hNew, rfl⟩⟩

end BacktrackRegex
