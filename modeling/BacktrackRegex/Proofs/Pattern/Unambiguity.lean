import BacktrackRegex.Proofs.Pattern.Grammar

/-!
# The grammar of patterns is unambiguous

A text has at most one derivation.  Most pieces tell by their first characters what they are and
where they end.  A sequence does not, so it is compared with another one only up to places where
neither of them could go on.

* `Grammar.Ends`, `Grammar.Closes` — where a sequence and an alternation cannot go on;
* `Grammar.StartsAtom` — the characters that an atom can begin with;
* `derives_unique` — a pattern stands for at most one regex.
-/

set_option autoImplicit false

namespace BacktrackRegex

namespace Grammar

variable {depth n n' : Nat} {s t t' : List Char}

/-! ## Where pieces begin and end -/

/-- The text does not begin with a digit. -/
def NoDigit (t : List Char) : Prop := ∀ c u, t = c :: u → c.isDigit = false

/-- A place where a sequence inside `depth` groups cannot go on. -/
inductive Ends (depth : Nat) : List Char → Prop
  | done : Ends depth []
  | bar (t : List Char) : Ends depth ('|' :: t)
  | paren (hDepth : 0 < depth) (t : List Char) : Ends depth (')' :: t)

/-- A place where an alternation inside `depth` groups cannot go on. -/
inductive Closes (depth : Nat) : List Char → Prop
  | done : Closes depth []
  | paren (hDepth : 0 < depth) (t : List Char) : Closes depth (')' :: t)

theorem Closes.ends (h : Closes depth t) : Ends depth t := by
  cases h with
  | done => exact .done
  | paren hDepth t => exact .paren hDepth t

/-- An atom inside `depth` groups can begin with the character. -/
def StartsAtom (depth : Nat) (c : Char) : Prop :=
  c ∉ ['|', '*', '+', '?'] ∧ (c = ')' → depth = 0)

theorem Leaf.starts {set : CharSet} (h : Leaf depth s set t) :
    ∃ c u, s = c :: u ∧ StartsAtom depth c := by
  cases h with
  | dot => exact ⟨_, _, rfl, by decide, by simp⟩
  | escaped => exact ⟨_, _, rfl, by decide, by simp⟩
  | plain hPlain hClose => exact ⟨_, _, rfl, by simp_all, hClose⟩
  | members => exact ⟨_, _, rfl, by decide, by simp⟩
  | others => exact ⟨_, _, rfl, by decide, by simp⟩

theorem Atom.starts {r : Regex} (h : Atom depth s r t) :
    ∃ c u, s = c :: u ∧ StartsAtom depth c := by
  cases h with
  | leaf h => exact h.starts
  | capturing => exact ⟨_, _, rfl, by decide, by simp⟩
  | bare => exact ⟨_, _, rfl, by decide, by simp⟩

theorem Ends.not_atom {r : Regex} (hEnds : Ends depth s) (hAtom : Atom depth s r t) : False := by
  obtain ⟨c, u, rfl, hStart, hClose⟩ := hAtom.starts
  cases hEnds with
  | bar => simp at hStart
  | paren hDepth => exact absurd (hClose rfl) (Nat.ne_of_gt hDepth)

/-- A sequence that is followed by a place where it cannot go on does not begin with any of the
characters `*`, `+` and `?`. -/
theorem Sequence.head_not_mem {items : List (Regex × Quantifier)} {c : Char} {u : List Char}
    (h : Sequence depth s items t) (hEnds : Ends depth t) (hHead : s = c :: u) :
    c ∉ ['*', '+', '?'] := by
  have hAtom : ∀ {r t}, Atom depth s r t → c ∉ ['*', '+', '?'] := by
    intro r t hAtom
    obtain ⟨c', u', hHead', hStart, -⟩ := hAtom.starts
    cases hHead.symm.trans hHead'
    simp_all
  cases h with
  | nil =>
    cases hEnds with
    | done => cases hHead
    | bar => cases hHead; decide
    | paren => cases hHead; decide
  | once h _ _ => exact hAtom h
  | quantified h _ _ => exact hAtom h

/-! ## Quantifiers -/

/-- A number that is not followed by a digit is all digits that the text begins with. -/
theorem Number.spec (h : Number s n t) (hNext : NoDigit t) :
    s.takeWhile Char.isDigit ≠ [] ∧ decimalValue (s.takeWhile Char.isDigit) = n ∧
      s.dropWhile Char.isDigit = t := by
  cases h with
  | @intro digits hSome hDigits =>
    have hTake : t.takeWhile Char.isDigit = [] := by
      cases t with
      | nil => rfl
      | cons c u => simp [hNext c u rfl]
    have hDrop : t.dropWhile Char.isDigit = t := by
      cases t with
      | nil => rfl
      | cons c u => simp [hNext c u rfl]
    rw [List.takeWhile_append_of_pos hDigits, List.dropWhile_append_of_pos hDigits, hTake, hDrop,
      List.append_nil]
    exact ⟨hSome, rfl, rfl⟩

theorem Number.unique (h : Number s n t) (h' : Number s n' t') (hNext : NoDigit t)
    (hNext' : NoDigit t') : n = n' ∧ t = t' := by
  obtain ⟨-, hValue, hRest⟩ := h.spec hNext
  obtain ⟨-, hValue', hRest'⟩ := h'.spec hNext'
  exact ⟨hValue.symm.trans hValue', hRest.symm.trans hRest'⟩

theorem noDigit_cons {c : Char} (hc : c.isDigit = false) (t : List Char) : NoDigit (c :: t) := by
  rintro c' u h
  cases h
  exact hc

theorem Number.not_noDigit (h : Number s n t) : ¬ NoDigit s := by
  cases h with
  | @intro digits hSome hDigits =>
    obtain ⟨c, cs, rfl⟩ := List.exists_cons_of_ne_nil hSome
    intro hNone
    have hDigit := hDigits c List.mem_cons_self
    rw [hNone c (cs ++ t) rfl] at hDigit
    cases hDigit

theorem UpperBound.noDigit {min : Nat} {max : Option Nat} (h : UpperBound min s max t) :
    NoDigit s := by
  cases h with
  | same => exact noDigit_cons (by decide) _
  | absent => exact noDigit_cons (by decide) _
  | given => exact noDigit_cons (by decide) _

theorem UpperBound.unique {min : Nat} {max max' : Option Nat} (h : UpperBound min s max t)
    (h' : UpperBound min s max' t') : max = max' ∧ t = t' := by
  have hBrace : NoDigit ('\x7d' :: t) := noDigit_cons (by decide) t
  have hBrace' : NoDigit ('\x7d' :: t') := noDigit_cons (by decide) t'
  cases h with
  | same => cases h'; exact ⟨rfl, rfl⟩
  | absent =>
    cases h' with
    | absent => exact ⟨rfl, rfl⟩
    | given hMax => exact absurd hBrace hMax.not_noDigit
  | given hMax =>
    cases h' with
    | absent => exact absurd hBrace' hMax.not_noDigit
    | given hMax' =>
      obtain ⟨rfl, hRest⟩ := hMax.unique hMax' hBrace hBrace'
      cases hRest
      exact ⟨rfl, rfl⟩

theorem BraceForm.unique {min min' : Nat} {max max' : Option Nat} (h : BraceForm s min max t)
    (h' : BraceForm s min' max' t') : min = min' ∧ max = max' ∧ t = t' := by
  cases h with
  | intro hMin hMax =>
    cases h' with
    | intro hMin' hMax' =>
      obtain ⟨rfl, rfl⟩ := hMin.unique hMin' hMax.noDigit hMax'.noDigit
      exact ⟨rfl, hMax.unique hMax'⟩

theorem Quantified.unique {q q' : Quantifier} (h : Quantified s q t) (h' : Quantified s q' t') :
    q = q' ∧ t = t' := by
  cases h with
  | star =>
    cases h' with
    | star => exact ⟨rfl, rfl⟩
    | braces hForm' _ => nomatch hForm'
  | plus =>
    cases h' with
    | plus => exact ⟨rfl, rfl⟩
    | braces hForm' _ => nomatch hForm'
  | mark =>
    cases h' with
    | mark => exact ⟨rfl, rfl⟩
    | braces hForm' _ => nomatch hForm'
  | braces hForm _ =>
    cases h' with
    | braces hForm' _ =>
      obtain ⟨hMin, hMax, rfl⟩ := hForm.unique hForm'
      obtain ⟨min, max⟩ := q
      obtain ⟨min', max'⟩ := q'
      obtain rfl := UInt32.toNat_inj.1 hMin
      obtain rfl := Option.map_injective (fun _ _ => UInt32.toNat_inj.1) hMax
      exact ⟨rfl, rfl⟩
    | star => nomatch hForm
    | plus => nomatch hForm
    | mark => nomatch hForm

/-- No text can be read both with a quantifier and as the rest of a sequence after an atom that has
none. -/
theorem Quantified.not_sequence {q : Quantifier} {items : List (Regex × Quantifier)}
    (h : Quantified s q t') (hBare : ¬ OpensBraces s) (hItems : Sequence depth s items t)
    (hEnds : Ends depth t) : False := by
  cases h with
  | star => simpa using hItems.head_not_mem hEnds rfl
  | plus => simpa using hItems.head_not_mem hEnds rfl
  | mark => simpa using hItems.head_not_mem hEnds rfl
  | braces hForm _ => exact hBare ⟨_, _, _, hForm⟩

/-! ## Characters -/

theorem Members.unique {members members' : List Char} (h : Members s members t)
    (h' : Members s members' t') : members = members' ∧ t = t' := by
  induction h generalizing members' with
  | close => cases h' with
    | close => exact ⟨rfl, rfl⟩
    | plain hPlain => simp at hPlain
  | escaped c _ ih => cases h' with
    | escaped _ h' =>
      obtain ⟨rfl, rfl⟩ := ih h'
      exact ⟨rfl, rfl⟩
    | plain hPlain => simp at hPlain
  | plain hPlain _ ih => cases h' with
    | close => simp at hPlain
    | escaped => simp at hPlain
    | plain _ h' =>
      obtain ⟨rfl, rfl⟩ := ih h'
      exact ⟨rfl, rfl⟩

theorem Leaf.unique {set set' : CharSet} (h : Leaf depth s set t) (h' : Leaf depth s set' t') :
    set = set' ∧ t = t' := by
  cases h with
  | dot => cases h' with
    | dot => exact ⟨rfl, rfl⟩
    | plain hPlain => simp at hPlain
  | escaped => cases h' with
    | escaped => exact ⟨rfl, rfl⟩
    | plain hPlain => simp at hPlain
  | plain hPlain => cases h' with
    | plain => exact ⟨rfl, rfl⟩
    | _ => simp at hPlain
  | members h => cases h' with
    | plain hPlain => simp at hPlain
    | members h' =>
      obtain ⟨rfl, rfl⟩ := h.unique h'
      exact ⟨rfl, rfl⟩
    | others h' => cases h with
      | plain hPlain => simp at hPlain
  | others h => cases h' with
    | plain hPlain => simp at hPlain
    | members h' => cases h' with
      | plain hPlain => simp at hPlain
    | others h' =>
      obtain ⟨rfl, rfl⟩ := h.unique h'
      exact ⟨rfl, rfl⟩

theorem Leaf.not_paren {set : CharSet} {u : List Char} (h : Leaf depth s set t)
    (hHead : s = '(' :: u) : False := by
  cases h with
  | plain hPlain =>
    cases hHead
    simp at hPlain
  | _ => cases hHead

/-! ## Regexes -/

theorem Branches.ends {branches : List Regex} (h : Branches depth s branches t)
    (hCloses : Closes depth t) : Ends depth s := by
  cases h with
  | nil => exact hCloses.ends
  | cons => exact .bar _

/-- The body of a group does not begin with `?`. -/
theorem Alternation.not_mark {body : Regex} {u : List Char}
    (h : Alternation depth ('?' :: u) body t) (hCloses : Closes depth t) : False := by
  cases h with
  | single h => simpa using h.head_not_mem hCloses.ends rfl
  | several hFirst hOthers => simpa using hFirst.head_not_mem (hOthers.ends hCloses) rfl

/-! The induction is on the first derivation; the second one is taken apart beside it. -/

mutual

theorem Alternation.unique : ∀ {depth : Nat} {s t t' : List Char} {r r' : Regex},
    Alternation depth s r t → Closes depth t → Alternation depth s r' t' → Closes depth t' →
    r = r' ∧ t = t'
  | _, _, _, _, _, _, .single h, hCloses, h', hCloses' => by
    cases h' with
    | single h' =>
      obtain ⟨rfl, rfl⟩ := h.unique hCloses.ends h' hCloses'.ends
      exact ⟨rfl, rfl⟩
    | several hFirst' hOthers' =>
      -- The sequence ends before a bar in one derivation, and where no bar can follow in the other.
      obtain ⟨-, rfl⟩ := h.unique hCloses.ends hFirst' (hOthers'.ends hCloses')
      cases hOthers' with
      | cons => nomatch hCloses
  | _, _, _, _, _, _, .several hFirst hOthers, hCloses, h', hCloses' => by
    cases h' with
    | single h' =>
      obtain ⟨-, rfl⟩ := hFirst.unique (hOthers.ends hCloses) h' hCloses'.ends
      cases hOthers with
      | cons => nomatch hCloses'
    | several hFirst' hOthers' =>
      obtain ⟨rfl, rfl⟩ := hFirst.unique (hOthers.ends hCloses) hFirst' (hOthers'.ends hCloses')
      obtain ⟨hBranches, rfl⟩ := hOthers.unique hCloses hOthers' hCloses'
      exact ⟨congrArg (Regex.alt <| .seq _ :: ·) hBranches, rfl⟩

theorem Branches.unique : ∀ {depth : Nat} {s t t' : List Char} {branches branches' : List Regex},
    Branches depth s branches t → Closes depth t → Branches depth s branches' t' →
    Closes depth t' → branches = branches' ∧ t = t'
  | _, _, _, _, _, _, .nil _ _, hCloses, h', _ => by
    cases h' with
    | nil => exact ⟨rfl, rfl⟩
    | cons => nomatch hCloses
  | _, _, _, _, _, _, .cons hFirst hOthers, hCloses, h', hCloses' => by
    cases h' with
    | nil => nomatch hCloses'
    | cons hFirst' hOthers' =>
      obtain ⟨rfl, rfl⟩ := hFirst.unique (hOthers.ends hCloses) hFirst' (hOthers'.ends hCloses')
      obtain ⟨rfl, rfl⟩ := hOthers.unique hCloses hOthers' hCloses'
      exact ⟨rfl, rfl⟩

theorem Sequence.unique : ∀ {depth : Nat} {s t t' : List Char}
    {items items' : List (Regex × Quantifier)}, Sequence depth s items t → Ends depth t →
    Sequence depth s items' t' → Ends depth t' → items = items' ∧ t = t'
  | _, _, _, _, _, _, .nil _ _, hEnds, h', _ => by
    cases h' with
    | nil => exact ⟨rfl, rfl⟩
    | once hAtom' => exact (hEnds.not_atom hAtom').elim
    | quantified hAtom' => exact (hEnds.not_atom hAtom').elim
  | _, _, _, _, _, _, .once hAtom hBare hItems, hEnds, h', hEnds' => by
    cases h' with
    | nil => exact (hEnds'.not_atom hAtom).elim
    | once hAtom' _ hItems' =>
      obtain ⟨rfl, rfl⟩ := hAtom.unique hAtom'
      obtain ⟨rfl, rfl⟩ := hItems.unique hEnds hItems' hEnds'
      exact ⟨rfl, rfl⟩
    | quantified hAtom' hQuantifier' _ =>
      obtain ⟨-, rfl⟩ := hAtom.unique hAtom'
      exact (hQuantifier'.not_sequence hBare hItems hEnds).elim
  | _, _, _, _, _, _, .quantified hAtom hQuantifier hItems, hEnds, h', hEnds' => by
    cases h' with
    | nil => exact (hEnds'.not_atom hAtom).elim
    | once hAtom' hBare' hItems' =>
      obtain ⟨-, rfl⟩ := hAtom.unique hAtom'
      exact (hQuantifier.not_sequence hBare' hItems' hEnds').elim
    | quantified hAtom' hQuantifier' hItems' =>
      obtain ⟨rfl, rfl⟩ := hAtom.unique hAtom'
      obtain ⟨rfl, rfl⟩ := hQuantifier.unique hQuantifier'
      obtain ⟨rfl, rfl⟩ := hItems.unique hEnds hItems' hEnds'
      exact ⟨rfl, rfl⟩

theorem Atom.unique : ∀ {depth : Nat} {s t t' : List Char} {r r' : Regex},
    Atom depth s r t → Atom depth s r' t' → r = r' ∧ t = t'
  | _, _, _, _, _, _, .leaf h, h' => by
    cases h' with
    | leaf h' =>
      obtain ⟨rfl, rfl⟩ := h.unique h'
      exact ⟨rfl, rfl⟩
    | capturing => exact (h.not_paren rfl).elim
    | bare => exact (h.not_paren rfl).elim
  | _, _, _, _, _, _, .capturing _ hBody, h' => by
    cases h' with
    | leaf h' => exact (h'.not_paren rfl).elim
    | capturing _ hBody' =>
      obtain ⟨rfl, hRest⟩ := hBody.unique (.paren (Nat.succ_pos _) _) hBody'
        (.paren (Nat.succ_pos _) _)
      cases hRest
      exact ⟨rfl, rfl⟩
    | bare =>
      -- The body of a capturing group would begin with the question mark.
      exact (hBody.not_mark (.paren (Nat.succ_pos _) _)).elim
  | _, _, _, _, _, _, .bare _ hBody, h' => by
    cases h' with
    | leaf h' => exact (h'.not_paren rfl).elim
    | capturing _ hBody' => exact (hBody'.not_mark (.paren (Nat.succ_pos _) _)).elim
    | bare _ hBody' =>
      obtain ⟨rfl, hRest⟩ := hBody.unique (.paren (Nat.succ_pos _) _) hBody'
        (.paren (Nat.succ_pos _) _)
      cases hRest
      exact ⟨rfl, rfl⟩

end

/-- A pattern stands for at most one regex. -/
theorem derives_unique {pattern : List Char} {r r' : Regex} (h : Derives pattern r)
    (h' : Derives pattern r') : r = r' :=
  (Alternation.unique h .done h' .done).1

end Grammar

end BacktrackRegex
