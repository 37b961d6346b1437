import BacktrackRegex.Proofs.Pattern.Acceptance
import Mathlib.Data.List.Nodup

/-!
# Canonical regexes

The regexes that patterns stand for: sequences and alternations take turns with single characters
and groups, the bounds of quantifiers are in order, the members of a class are distinct, groups do
not nest deeper than patterns may, and they are numbered in the order in which they open.

* `Regex.Canonical` — all of this;
* `Grammar.Alternation.isBody`, `Grammar.Alternation.nesting_le` — what the grammar derives is of
  this kind but for the numbers;
* `parse_canonical` — patterns are read as canonical regexes.
-/

set_option autoImplicit false

namespace BacktrackRegex

/-- The members of a class are distinct. -/
def CharSet.Distinct : CharSet → Prop
  | .any => True
  | .only _ => True
  | .members _ chars => chars.Nodup

mutual

/-- A sequence of single characters and groups, each with its bounds in order. -/
def Regex.IsSequence : Regex → Prop
  | .seq items => AreItems items
  | .alt _ => False
  | .group _ _ => False
  | .leaf _ => False

/-- A sequence, or an alternation of at least two of them. -/
def Regex.IsBody : Regex → Prop
  | .seq items => AreItems items
  | .alt branches => 2 ≤ branches.length ∧ AreSequences branches
  | .group _ _ => False
  | .leaf _ => False

/-- A single character, or a group around a sequence or an alternation. -/
def Regex.IsAtom : Regex → Prop
  | .seq _ => False
  | .alt _ => False
  | .group _ body => body.IsBody
  | .leaf set => set.Distinct

/-- Items that a sequence may have. -/
def AreItems : List (Regex × Quantifier) → Prop
  | [] => True
  | (r, q) :: items => r.IsAtom ∧ q.Ordered ∧ AreItems items

/-- Branches that an alternation may have. -/
def AreSequences : List Regex → Prop
  | [] => True
  | r :: branches => r.IsSequence ∧ AreSequences branches

end

mutual

/-- How deep groups nest. -/
def Regex.nesting : Regex → Nat
  | .seq items => itemsNesting items
  | .alt branches => branchesNesting branches
  | .group _ body => body.nesting + 1
  | .leaf _ => 0

/-- How deep groups nest in the items of a sequence. -/
def itemsNesting : List (Regex × Quantifier) → Nat
  | [] => 0
  | (r, _) :: items => max r.nesting (itemsNesting items)

/-- How deep groups nest in the branches of an alternation. -/
def branchesNesting : List Regex → Nat
  | [] => 0
  | r :: branches => max r.nesting (branchesNesting branches)

end

/-- A regex of the form that patterns have. -/
structure Regex.Canonical (r : Regex) : Prop where
  isBody : r.IsBody
  nesting_le : r.nesting ≤ maxNesting
  numbered : r.NumberedFrom 1

/-! ## Numbers do not matter for the form -/

mutual

theorem Regex.anonymous_isSequence : ∀ r : Regex, r.anonymous.IsSequence ↔ r.IsSequence
  | .seq items => anonymous_areItems items
  | .alt _ => Iff.rfl
  | .group _ _ => Iff.rfl
  | .leaf _ => Iff.rfl

theorem Regex.anonymous_isBody : ∀ r : Regex, r.anonymous.IsBody ↔ r.IsBody
  | .seq items => anonymous_areItems items
  | .alt branches => by
    simp only [Regex.anonymous, Regex.IsBody, anonymous_areSequences branches,
      length_branchesAnonymous]
  | .group _ _ => Iff.rfl
  | .leaf _ => Iff.rfl

theorem Regex.anonymous_isAtom : ∀ r : Regex, r.anonymous.IsAtom ↔ r.IsAtom
  | .seq _ => Iff.rfl
  | .alt _ => Iff.rfl
  | .group _ body => body.anonymous_isBody
  | .leaf _ => Iff.rfl

theorem anonymous_areItems : ∀ items : List (Regex × Quantifier),
    AreItems (itemsAnonymous items) ↔ AreItems items
  | [] => Iff.rfl
  | (r, _) :: items =>
    and_congr r.anonymous_isAtom (and_congr_right fun _ => anonymous_areItems items)

theorem anonymous_areSequences : ∀ branches : List Regex,
    AreSequences (branchesAnonymous branches) ↔ AreSequences branches
  | [] => Iff.rfl
  | r :: branches => and_congr r.anonymous_isSequence (anonymous_areSequences branches)

theorem length_branchesAnonymous : ∀ branches : List Regex,
    (branchesAnonymous branches).length = branches.length
  | [] => rfl
  | _ :: branches => congrArg (· + 1) (length_branchesAnonymous branches)

end

mutual

theorem Regex.anonymous_nesting : ∀ r : Regex, r.anonymous.nesting = r.nesting
  | .seq items => itemsAnonymous_nesting items
  | .alt branches => branchesAnonymous_nesting branches
  | .group _ body => congrArg (· + 1) body.anonymous_nesting
  | .leaf _ => rfl

theorem itemsAnonymous_nesting : ∀ items : List (Regex × Quantifier),
    itemsNesting (itemsAnonymous items) = itemsNesting items
  | [] => rfl
  | (r, _) :: items => congrArg₂ max r.anonymous_nesting (itemsAnonymous_nesting items)

theorem branchesAnonymous_nesting : ∀ branches : List Regex,
    branchesNesting (branchesAnonymous branches) = branchesNesting branches
  | [] => rfl
  | r :: branches => congrArg₂ max r.anonymous_nesting (branchesAnonymous_nesting branches)

end

/-! ## What the grammar derives -/

/-- Of several equal members the first one is kept. -/
theorem nodup_eraseDups (chars : List Char) : chars.eraseDups.Nodup := by
  induction chars using List.reverseRecOn with
  | nil => exact List.nodup_nil
  | append_singleton chars ch ih =>
    rw [← addMember_eraseDups, addMember]
    split
    · exact ih
    · rename_i hNew
      have hNew' : ch ∉ chars.eraseDups := by simpa using hNew
      rw [← List.concat_eq_append]
      exact List.Nodup.concat hNew' ih

namespace Grammar

variable {depth : Nat} {s t : List Char}

theorem Leaf.distinct {set : CharSet} (h : Leaf depth s set t) : set.Distinct := by
  cases h with
  | dot => trivial
  | escaped => trivial
  | plain => trivial
  | members => exact nodup_eraseDups _
  | others => exact nodup_eraseDups _

theorem Quantified.ordered {q : Quantifier} (h : Quantified s q t) : q.Ordered := by
  cases h with
  | star => rintro max ⟨⟩
  | plus => rintro max ⟨⟩
  | mark => rintro max ⟨⟩; decide
  | braces _ hOrder => exact hOrder

mutual

theorem Alternation.isBody : ∀ {depth : Nat} {s t : List Char} {r : Regex},
    Alternation depth s r t → r.IsBody
  | _, _, _, _, .single h => h.areItems
  | _, _, _, _, .several hFirst hOthers =>
    ⟨Nat.le_add_left 2 _, hFirst.areItems, hOthers.areSequences⟩

theorem Branches.areSequences : ∀ {depth : Nat} {s t : List Char} {branches : List Regex},
    Branches depth s branches t → AreSequences branches
  | _, _, _, _, .nil _ _ => trivial
  | _, _, _, _, .cons hFirst hOthers => ⟨hFirst.areItems, hOthers.areSequences⟩

theorem Sequence.areItems : ∀ {depth : Nat} {s t : List Char}
    {items : List (Regex × Quantifier)}, Sequence depth s items t → AreItems items
  | _, _, _, _, .nil _ _ => trivial
  | _, _, _, _, .once hAtom _ hItems =>
    ⟨hAtom.isAtom, by rintro max ⟨⟩; decide, hItems.areItems⟩
  | _, _, _, _, .quantified hAtom hQuantifier hItems =>
    ⟨hAtom.isAtom, hQuantifier.ordered, hItems.areItems⟩

theorem Atom.isAtom : ∀ {depth : Nat} {s t : List Char} {r : Regex},
    Atom depth s r t → r.IsAtom
  | _, _, _, _, .leaf h => h.distinct
  | _, _, _, _, .capturing _ hBody => hBody.isBody
  | _, _, _, _, .bare _ hBody => hBody.isBody

end

mutual

theorem Alternation.nesting_le : ∀ {depth : Nat} {s t : List Char} {r : Regex},
    Alternation depth s r t → depth ≤ maxNesting → depth + r.nesting ≤ maxNesting
  | _, _, _, _, .single h, hDepth => h.nesting_le hDepth
  | _, _, _, _, .several hFirst hOthers, hDepth => by
    have hFirst' := hFirst.nesting_le hDepth
    have hOthers' := hOthers.nesting_le hDepth
    simp only [Regex.nesting, branchesNesting] at hOthers' ⊢
    omega

theorem Branches.nesting_le : ∀ {depth : Nat} {s t : List Char} {branches : List Regex},
    Branches depth s branches t → depth ≤ maxNesting → depth + branchesNesting branches ≤ maxNesting
  | _, _, _, _, .nil _ _, hDepth => hDepth
  | _, _, _, _, .cons hFirst hOthers, hDepth => by
    have hFirst' := hFirst.nesting_le hDepth
    have hOthers' := hOthers.nesting_le hDepth
    simp only [Regex.nesting, branchesNesting]
    omega

theorem Sequence.nesting_le : ∀ {depth : Nat} {s t : List Char}
    {items : List (Regex × Quantifier)},
    Sequence depth s items t → depth ≤ maxNesting → depth + itemsNesting items ≤ maxNesting
  | _, _, _, _, .nil _ _, hDepth => hDepth
  | _, _, _, _, .once hAtom _ hItems, hDepth => by
    have hAtom' := hAtom.nesting_le hDepth
    have hItems' := hItems.nesting_le hDepth
    simp only [itemsNesting]
    omega
  | _, _, _, _, .quantified hAtom _ hItems, hDepth => by
    have hAtom' := hAtom.nesting_le hDepth
    have hItems' := hItems.nesting_le hDepth
    simp only [itemsNesting]
    omega

theorem Atom.nesting_le : ∀ {depth : Nat} {s t : List Char} {r : Regex},
    Atom depth s r t → depth ≤ maxNesting → depth + r.nesting ≤ maxNesting
  | _, _, _, _, .leaf _, hDepth => hDepth
  | _, _, _, _, .capturing hDepth hBody, _ => by
    have hBody' := hBody.nesting_le hDepth
    simp only [Regex.nesting]
    omega
  | _, _, _, _, .bare hDepth hBody, _ => by
    have hBody' := hBody.nesting_le hDepth
    simp only [Regex.nesting]
    omega

end

end Grammar

/-- A pattern is read as a canonical regex. -/
theorem parse_canonical {pattern : String} {r : Regex} (h : parse pattern = .ok r) :
    r.Canonical := by
  have hDerives := parse_sound h
  refine ⟨r.anonymous_isBody.1 hDerives.isBody, ?_, (parse_reads h).2⟩
  rw [← r.anonymous_nesting, ← Nat.zero_add r.anonymous.nesting]
  exact hDerives.nesting_le (Nat.zero_le _)

end BacktrackRegex
