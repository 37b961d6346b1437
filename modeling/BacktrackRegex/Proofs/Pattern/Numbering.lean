import BacktrackRegex.Pattern.Parser
import BacktrackRegex.Proofs.Captures.Numbering

/-!
# Patterns number their groups consecutively

Every reader of a piece of a pattern moves the next group number on by the groups it has read, and
gives these the numbers between, in the order in which they open.

* `Reads` — what a reader promises about the regex it has read;
* `parse_reads` — the regex of a pattern has its groups numbered from one, and no alternation in it
  is without branches.
-/

set_option autoImplicit false

namespace BacktrackRegex

/-! ## Pieces without groups -/

@[simp] theorem Cursor.next_nextId (c : Cursor) : c.next.nextId = c.nextId := by
  unfold Cursor.next
  split <;> rfl

theorem readNumber_nextId {c c' : Cursor} {n : Option UInt32} (h : readNumber c = .ok (n, c')) :
    c'.nextId = c.nextId := by
  unfold readNumber at h
  split at h
  · cases h
    rfl
  · split at h
    · cases h
      rfl
    · cases h

theorem readUpperBound_nextId {min : UInt32} {c c' : Cursor} {n : Option UInt32}
    (h : readUpperBound min c = .ok (n, c')) : c'.nextId = c.nextId := by
  unfold readUpperBound at h
  split at h
  · rw [readNumber_nextId h, Cursor.next_nextId]
  · cases h
    rfl

theorem readBraces_nextId {c c' : Cursor} {q : Quantifier} (h : readBraces c = .ok (q, c')) :
    c'.nextId = c.nextId := by
  unfold readBraces at h
  split at h
  · cases h
  · cases h
    rfl
  · rename_i hMin
    split at h
    · cases h
    · rename_i hMax
      split at h
      · split at h <;> cases h
        rw [Cursor.next_nextId, readUpperBound_nextId hMax, readNumber_nextId hMin,
          Cursor.next_nextId]
      · cases h
        rfl

theorem readQuantifier_nextId {c c' : Cursor} {q : Quantifier}
    (h : readQuantifier c = .ok (q, c')) : c'.nextId = c.nextId := by
  unfold readQuantifier at h
  split at h
  case h_4 => exact readBraces_nextId h
  all_goals cases h
  case h_5 => rfl
  all_goals exact c.next_nextId

theorem readMembers_nextId {nextId pos : Nat} {members rest found : List Char} {c' : Cursor}
    (h : readMembers nextId pos members rest = .ok (found, c')) : c'.nextId = nextId := by
  fun_induction readMembers nextId pos members rest with
  | case1 => cases h
  | case2 => cases h; rfl
  | case3 => cases h
  | case4 pos members ch rest ih => exact ih h
  | case5 => cases h
  | case6 pos members ch rest _ _ _ _ ih => exact ih h

theorem openClass_nextId (c : Cursor) : (openClass c).2.nextId = c.nextId := by
  unfold openClass
  split <;> simp only [Cursor.next_nextId]

/-- A group takes the next number, or none. -/
theorem openGroup_nextId (c : Cursor) :
    ((openGroup c).1 = none ∧ (openGroup c).2.nextId = c.nextId) ∨
      ((openGroup c).1 = some c.nextId ∧ (openGroup c).2.nextId = c.nextId + 1) := by
  unfold openGroup
  split
  · exact .inl ⟨rfl, by simp only [Cursor.next_nextId]⟩
  · exact .inr ⟨rfl, rfl⟩

/-! ## Regexes -/

/-- Reading from `c` to `c'` gives a regex without empty alternations whose groups have the numbers
that come next. -/
structure Reads (c : Cursor) (r : Regex) (c' : Cursor) : Prop where
  branched : r.Branched
  numbered : r.NumberedFrom c.nextId
  next : c'.nextId = c.nextId + r.groupCount

/-- The same for the items of a sequence. -/
structure ReadsItems (c : Cursor) (items : List (Regex × Quantifier)) (c' : Cursor) : Prop where
  branched : ItemsBranched items
  numbered : ItemsNumberedFrom items c.nextId
  next : c'.nextId = c.nextId + itemsGroupCount items

/-- The same for branches. -/
structure ReadsBranches (c : Cursor) (branches : List Regex) (c' : Cursor) : Prop where
  branched : BranchesBranched branches
  numbered : BranchesNumberedFrom branches c.nextId
  next : c'.nextId = c.nextId + branchesGroupCount branches

/-- A reader that always keeps this promise. -/
def Consumer.Numbers (atom : Consumer Regex) : Prop :=
  ∀ c r c', atom.read c = .ok (r, c') → Reads c r c'

theorem Reads.leaf {c c' : Cursor} {set : CharSet} (h : c'.nextId = c.nextId) :
    Reads c (.leaf set) c' :=
  ⟨trivial, rfl, h⟩

theorem ReadsItems.cons {c c₁ c₂ c₃ : Cursor} {r : Regex} {q : Quantifier}
    {items : List (Regex × Quantifier)} (hFirst : Reads c r c₁) (hNext : c₂.nextId = c₁.nextId)
    (hItems : ReadsItems c₂ items c₃) : ReadsItems c ((r, q) :: items) c₃ := by
  have hNumber := hNext.trans hFirst.next
  refine ⟨⟨hFirst.branched, hItems.branched⟩, itemsNumberedFrom_cons.2 ⟨hFirst.numbered, ?_⟩, ?_⟩
  · rw [← hNumber]
    exact hItems.numbered
  · rw [hItems.next, hNumber, itemsGroupCount, Nat.add_assoc]

theorem ReadsBranches.cons {c c₀ c₁ c₂ : Cursor} {r : Regex} {branches : List Regex}
    (hStart : c₀.nextId = c.nextId) (hFirst : Reads c₀ r c₁)
    (hBranches : ReadsBranches c₁ branches c₂) : ReadsBranches c (r :: branches) c₂ := by
  obtain ⟨hBranched, hNumbered, hNext⟩ := hFirst
  rw [hStart] at hNumbered hNext
  refine ⟨⟨hBranched, hBranches.branched⟩, branchesNumberedFrom_cons.2 ⟨hNumbered, ?_⟩, ?_⟩
  · rw [← hNext]
    exact hBranches.numbered
  · rw [hBranches.next, hNext, branchesGroupCount, Nat.add_assoc]

theorem readClass_reads {c c' : Cursor} {r : Regex} (h : readClass c = .ok (r, c')) :
    Reads c r c' := by
  unfold readClass at h
  split at h
  · cases h
  · rename_i hMembers
    cases h
    exact .leaf ((readMembers_nextId hMembers).trans (openClass_nextId c))

theorem readEscape_reads {c c' : Cursor} {r : Regex} (h : readEscape c = .ok (r, c')) :
    Reads c r c' := by
  unfold readEscape at h
  split at h
  · cases h
  · cases h
    exact .leaf (by rw [Cursor.next_nextId, Cursor.next_nextId])

section

variable {nested : Bool} {atom : Consumer Regex} {c c' : Cursor} {r : Regex}

theorem readItems_reads (hAtom : atom.Numbers) {items : List (Regex × Quantifier)}
    (h : readItems nested atom c = .ok (items, c')) : ReadsItems c items c' := by
  fun_induction readItems nested atom c generalizing items c' with
  | case1 => cases h; exact ⟨trivial, rfl, rfl⟩
  | case2 => cases h
  | case3 => cases h
  | case4 => cases h
  | case5 c _ r c₁ hFirst q c₂ hQuantifier items c₃ hItems ih =>
    cases h
    exact .cons (hAtom c r c₁ hFirst) (readQuantifier_nextId hQuantifier) (ih hItems)

theorem readSequence_reads (hAtom : atom.Numbers)
    (h : readSequence nested atom c = .ok (r, c')) : Reads c r c' := by
  unfold readSequence at h
  split at h
  · cases h
  · rename_i hItems
    cases h
    obtain ⟨hBranched, hNumbered, hNext⟩ := readItems_reads hAtom hItems
    exact ⟨hBranched, hNumbered, hNext⟩

theorem readBranches_reads (hAtom : atom.Numbers) {branches : List Regex}
    (h : readBranches nested atom c = .ok (branches, c')) : ReadsBranches c branches c' := by
  fun_induction readBranches nested atom c generalizing branches c' with
  | case1 => cases h
  | case2 => cases h
  | case3 c _ hRest r c₁ hBranch branches c₂ hBranches ih =>
    cases h
    exact .cons c.next_nextId (readSequence_reads hAtom hBranch) (ih hBranches)
  | case4 => cases h; exact ⟨trivial, rfl, rfl⟩

theorem readAlternation_reads (hAtom : atom.Numbers)
    (h : readAlternation nested atom c = .ok (r, c')) : Reads c r c' := by
  unfold readAlternation at h
  split at h
  · cases h
  · rename_i hFirst
    have hReads := readSequence_reads hAtom hFirst
    split at h
    · cases h
    · rename_i hBranches
      cases h
      have hNone := readBranches_reads hAtom hBranches
      exact ⟨hReads.branched, hReads.numbered, hNone.next.trans hReads.next⟩
    · rename_i hBranches
      cases h
      obtain ⟨hBranched, hNumbered, hNext⟩ :=
        ReadsBranches.cons rfl hReads (readBranches_reads hAtom hBranches)
      exact ⟨⟨List.cons_ne_nil _ _, hBranched⟩, hNumbered, hNext⟩

theorem readGroup_numbers (hAtom : atom.Numbers) : (readGroup atom).Numbers := by
  intro c r c' h
  change readGroupBody atom c = _ at h
  unfold readGroupBody at h
  split at h
  · cases h
  · rename_i body c₁ hBody
    have hReads := readAlternation_reads hAtom hBody
    split at h <;> cases h
    obtain ⟨hBranched, hNumbered, hNext⟩ := hReads
    rcases openGroup_nextId c with ⟨hId, hOpen⟩ | ⟨hId, hOpen⟩
    all_goals
      rw [hOpen] at hNumbered hNext
      rw [hId]
    · refine ⟨hBranched, numberedFrom_group_none.2 hNumbered, ?_⟩
      rw [Cursor.next_nextId, hNext]
      exact congrArg (c.nextId + ·) (Nat.zero_add _).symm
    · refine ⟨hBranched, numberedFrom_group_some.2 ⟨rfl, hNumbered⟩, ?_⟩
      rw [Cursor.next_nextId, hNext]
      exact Nat.add_assoc _ _ _

theorem readAtomWith_numbers {group : Consumer Regex} (hGroup : group.Numbers) :
    (readAtomWith group).Numbers := by
  intro c r c' h
  change readAtomBody group c = _ at h
  unfold readAtomBody at h
  split at h
  · cases h
  · exact hGroup c r c' h
  · exact readClass_reads h
  · exact readEscape_reads h
  · cases h
    exact .leaf c.next_nextId
  · split at h <;> cases h
    exact .leaf c.next_nextId

theorem readAtom_numbers (levels : Nat) : (readAtom levels).Numbers := by
  induction levels with
  | zero =>
    refine readAtomWith_numbers fun c r c' h => ?_
    cases h
  | succ levels ih => exact readAtomWith_numbers (readGroup_numbers ih)

theorem readPattern_reads {openGroups : Nat} (h : readPattern openGroups c = .ok (r, c')) :
    Reads c r c' := by
  unfold readPattern at h
  split at h
  · cases h
  · rename_i hRegex
    split at h <;> cases h
    exact readAlternation_reads (readAtom_numbers _) hRegex

end

/-- The regex of a pattern has its groups numbered from one, in the order in which they open, and no
alternation without branches. -/
theorem parse_reads {pattern : String} {r : Regex} (h : parse pattern = .ok r) :
    r.Branched ∧ r.NumberedFrom 1 := by
  unfold parse at h
  split at h
  · cases h
  · rename_i hPattern
    cases h
    have hReads := readPattern_reads hPattern
    exact ⟨hReads.branched, hReads.numbered⟩

end BacktrackRegex
