import BacktrackRegex.Pattern.Parser

/-!
# Readers made of readers

The readers of sequences, of alternations and of whole patterns read one part after the other, and
are refused where one of the parts is.  The equations here say so with `Except.bind` and
`Except.map` alone.  What these two keep is then kept by all of the readers, and there is no need to
go through the outcomes of the parts for each of them.

* `openClass_caret`, `openClass_bare`, `openGroup_mark`, `openGroup_bare` — the two ways in which a
  class is opened, and a group;
* `readItems_of_goes`, `readBranches_of_bar`, `readBranches_of_bare` — one round of a loop;
* `readItems_induction`, `readBranches_induction` — all rounds of it;
* `readSequence_eq`, `readAlternation_eq`, `readPattern_eq` — what is made of the parts.
-/

set_option autoImplicit false

namespace BacktrackRegex

variable {nested : Bool} {atom : Consumer Regex} {c : Cursor}

/-! ## Openings -/

section

variable {s : List Char}

theorem openClass_caret (hRest : c.rest = '[' :: '^' :: s) : openClass c = (true, c.next.next) := by
  simp only [openClass, Cursor.next_rest_of_cons hRest]

theorem openClass_bare (hRest : c.rest = '[' :: s) (hCaret : ∀ t, s ≠ '^' :: t) :
    openClass c = (false, c.next) := by
  have hNext := Cursor.next_rest_of_cons hRest
  unfold openClass
  split
  · rename_i t ht
    exact (hCaret t (hNext.symm.trans ht)).elim
  · rfl

theorem openGroup_mark (hRest : c.rest = '(' :: '?' :: ':' :: s) :
    openGroup c = (none, c.next.next.next) := by
  simp only [openGroup, Cursor.next_rest_of_cons hRest]

theorem openGroup_bare (hRest : c.rest = '(' :: s) (hMark : ∀ t, s ≠ '?' :: ':' :: t) :
    openGroup c = (some c.nextId, { c.next with nextId := c.nextId + 1 }) := by
  have hNext := Cursor.next_rest_of_cons hRest
  unfold openGroup
  split
  · rename_i t ht
    exact (hMark t (hNext.symm.trans ht)).elim
  · rfl

end

/-! ## Sequences -/

/-- A sequence that goes on begins with an atom, its quantifier, and the items after them. -/
theorem readItems_of_goes (hGoes : endsSequence nested c.rest = false) :
    readItems nested atom c = (atom.read c).bind fun (r, c₁) =>
      (readQuantifier c₁).bind fun (q, c₂) =>
        (readItems nested atom c₂).map fun (items, c₃) => ((r, q) :: items, c₃) := by
  rw [readItems, if_neg (by simp [hGoes])]
  split <;> rename_i hAtom <;> rw [hAtom]
  · rfl
  · dsimp only [Except.bind]
    split <;> rename_i hQuantifier <;> rw [hQuantifier]
    dsimp only
    split <;> rename_i hItems <;> rw [hItems] <;> rfl

/-- What holds where a sequence ends, and wherever it goes on to an item after which it holds, holds
everywhere. -/
theorem readItems_induction (nested : Bool) (atom : Consumer Regex) {motive : Cursor → Prop}
    (ends : ∀ c, endsSequence nested c.rest = true → motive c)
    (goes : ∀ c, endsSequence nested c.rest = false →
      (∀ r c₁ q c₂, atom.read c = .ok (r, c₁) → readQuantifier c₁ = .ok (q, c₂) → motive c₂) →
      motive c)
    (c : Cursor) : motive c := by
  induction hLength : c.rest.length using Nat.strongRecOn generalizing c with
  | ind length ih =>
    cases hGoes : endsSequence nested c.rest with
    | true => exact ends c hGoes
    | false =>
      refine goes c hGoes fun r c₁ q c₂ hAtom hQuantifier => ih _ ?_ c₂ rfl
      have := atom.shortens hAtom
      have := readQuantifier_length_le hQuantifier
      omega

theorem readSequence_eq (nested : Bool) (atom : Consumer Regex) (c : Cursor) :
    readSequence nested atom c =
      (readItems nested atom c).map fun (items, c') => (.seq items, c') := by
  unfold readSequence
  split <;> rename_i hItems <;> rw [hItems] <;> rfl

/-! ## Alternations -/

theorem readBranches_of_bar {s : List Char} (hRest : c.rest = '|' :: s) :
    readBranches nested atom c = (readSequence nested atom c.next).bind fun (r, c₁) =>
      (readBranches nested atom c₁).map fun (branches, c₂) => (r :: branches, c₂) := by
  rw [readBranches]
  split
  · split <;> rename_i hBranch <;> simp only [hBranch, Except.bind]
    split <;> rename_i hBranches <;> simp only [hBranches, Except.map]
  · rename_i hBare
    exact absurd hRest (hBare s)

theorem readBranches_of_bare (hBare : ∀ s, c.rest ≠ '|' :: s) :
    readBranches nested atom c = .ok ([], c) := by
  rw [readBranches]
  split
  · rename_i hRest
    exact absurd hRest (hBare _)
  · rfl

/-- What holds where no bar is, and wherever a bar leads to a branch after which it holds, holds
everywhere. -/
theorem readBranches_induction (nested : Bool) (atom : Consumer Regex) {motive : Cursor → Prop}
    (bare : ∀ c, (∀ s, c.rest ≠ '|' :: s) → motive c)
    (bar : ∀ c s, c.rest = '|' :: s →
      (∀ r c₁, readSequence nested atom c.next = .ok (r, c₁) → motive c₁) → motive c)
    (c : Cursor) : motive c := by
  induction hLength : c.rest.length using Nat.strongRecOn generalizing c with
  | ind length ih =>
    by_cases hBar : ∃ s, c.rest = '|' :: s
    · obtain ⟨s, hRest⟩ := hBar
      refine bar c s hRest fun r c₁ hBranch => ih _ ?_ c₁ rfl
      have := Cursor.next_length_lt (c := c) (by simp [hRest])
      have := readSequence_length_le hBranch
      omega
    · exact bare c fun s hRest => hBar ⟨s, hRest⟩

/-- A first branch with the others; alone it stands for itself. -/
def Regex.alternation (first : Regex) : List Regex → Regex
  | [] => first
  | branch :: branches => .alt (first :: branch :: branches)

theorem readAlternation_eq (nested : Bool) (atom : Consumer Regex) (c : Cursor) :
    readAlternation nested atom c = (readSequence nested atom c).bind fun (first, c₁) =>
      (readBranches nested atom c₁).map fun (branches, c₂) =>
        (first.alternation branches, c₂) := by
  unfold readAlternation
  split <;> rename_i hFirst <;> rw [hFirst]
  · rfl
  · dsimp only [Except.bind]
    split <;> rename_i hBranches <;> rw [hBranches] <;> rfl

/-! ## Patterns -/

/-- What has been read has to be all of a pattern. -/
def atEnd : Regex × Cursor → Reading Regex
  | (r, c) => if c.rest.isEmpty then .ok (r, c) else .error (.unsupported c.pos c)

theorem readPattern_eq (openGroups : Nat) (c : Cursor) :
    readPattern openGroups c =
      (readAlternation (0 < openGroups) (readAtom (maxNesting - openGroups)) c).bind atEnd := by
  unfold readPattern
  split <;> rename_i hRegex <;> rw [hRegex] <;> rfl

end BacktrackRegex
