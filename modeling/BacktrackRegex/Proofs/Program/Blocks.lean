import BacktrackRegex.Proofs.Program.Targets

/-!
# The blocks of a program

The code of every part of a regex is a block without gaps, and a block is entered and left at its
ends: an instruction in it leads to a place in it or to the one right behind it, and an instruction
outside of it leads nowhere into it but to its first instruction.

* `Regex.blocks` — all parts of a regex, each with the place of its block;
* `Block.Closed` — the block stands in the program, and is left only at its end;
* `Block.EnteredAtStart` — other code leads only to its start;
* `Regex.blocks_closed`, `Regex.blocks_entered` — both, for all parts of a regex.
-/

set_option autoImplicit false

namespace BacktrackRegex

/-! ## Parts of a regex -/

/-- A part of a regex, the address of the first instruction of its code, and its first slot. -/
structure Block where
  regex : Regex
  base : Nat
  slot : Nat

/-- The address right behind the block. -/
def Block.stop (b : Block) : Nat := b.base + b.regex.codeSize

mutual

/-- The blocks of a regex whose code begins at `base` and takes slots from `slot` on: its own and
those of all its parts. -/
def Regex.blocks (base slot : Nat) : Regex → List Block
  | .seq items => ⟨.seq items, base, slot⟩ :: itemsBlocks base slot items
  | .alt branches => ⟨.alt branches, base, slot⟩ :: branchesBlocks (base + 1) slot branches
  | .group id body => ⟨.group id body, base, slot⟩ :: body.blocks base slot
  | .leaf set => [⟨.leaf set, base, slot⟩]

/-- The blocks of the items of a sequence; a loop has two instructions before its body, and one
behind it. -/
def itemsBlocks (base slot : Nat) : List (Regex × Quantifier) → List Block
  | [] => []
  | (r, _) :: items =>
    r.blocks (base + 2) (slot + 1) ++
      itemsBlocks (base + r.codeSize + 3) (slot + 1 + r.slotCount) items

/-- The blocks of branches, each of which has a jump behind it. -/
def branchesBlocks (base slot : Nat) : List Regex → List Block
  | [] => []
  | r :: branches =>
    r.blocks base slot ++ branchesBlocks (base + r.codeSize + 1) (slot + r.slotCount) branches

end

mutual

theorem Regex.blocks_range : ∀ (r : Regex) (base slot : Nat), ∀ b ∈ r.blocks base slot,
    base ≤ b.base ∧ b.stop ≤ base + r.codeSize
  | .seq items, base, slot, b, h => by
    rcases List.mem_cons.1 h with rfl | h
    · exact ⟨Nat.le_refl _, Nat.le_refl _⟩
    · exact itemsBlocks_range items base slot b h
  | .alt branches, base, slot, b, h => by
    rcases List.mem_cons.1 h with rfl | h
    · exact ⟨Nat.le_refl _, Nat.le_refl _⟩
    · have := branchesBlocks_range branches (base + 1) slot b h
      rw [Regex.codeSize]
      omega
  | .group _ body, base, slot, b, h => by
    rcases List.mem_cons.1 h with rfl | h
    · exact ⟨Nat.le_refl _, Nat.le_refl _⟩
    · exact Regex.blocks_range body base slot b h
  | .leaf _, _, _, b, h => by
    rw [List.mem_singleton.1 h]
    exact ⟨Nat.le_refl _, Nat.le_refl _⟩

theorem itemsBlocks_range : ∀ (items : List (Regex × Quantifier)) (base slot : Nat),
    ∀ b ∈ itemsBlocks base slot items, base ≤ b.base ∧ b.stop ≤ base + itemsCodeSize items
  | [], _, _, _, h => by cases h
  | (r, q) :: items, base, slot, b, h => by
    rw [itemsCodeSize]
    rcases List.mem_append.1 h with hBody | hLater
    · have := Regex.blocks_range r _ _ b hBody
      omega
    · have := itemsBlocks_range items _ _ b hLater
      omega

theorem branchesBlocks_range : ∀ (branches : List Regex) (base slot : Nat),
    ∀ b ∈ branchesBlocks base slot branches,
      base ≤ b.base ∧ b.stop ≤ base + branchesCodeSize branches
  | [], _, _, _, h => by cases h
  | r :: branches, base, slot, b, h => by
    rw [branchesCodeSize]
    rcases List.mem_append.1 h with hFirst | hLater
    · have := Regex.blocks_range r _ _ b hFirst
      omega
    · have := branchesBlocks_range branches _ _ b hLater
      omega

end

/-! ## Blocks are left at their end -/

/-- The code of the part stands at the place of the block without gaps, and its instructions lead
only to places in the block and to the one right behind it. -/
structure Block.Closed (b : Block) (p : Program) : Prop where
  code : p.HasCode b.base (b.regex.code b.base b.slot)
  length : (b.regex.code b.base b.slot).length = b.regex.codeSize
  targets : ∀ pc i, b.base ≤ pc → pc < b.stop → p.code[pc]? = some i →
    ∀ t ∈ i.targets pc, b.base ≤ t ∧ t ≤ b.stop

variable {p : Program}

theorem Block.closed_of_hasCode {b : Block}
    (h : p.HasCode b.base (b.regex.code b.base b.slot)) : b.Closed p where
  code := h
  length := b.regex.code_length b.base b.slot
  targets pc i hLow hHigh hAt :=
    (b.regex.confined b.base b.slot h pc i hLow hHigh hAt).targets hLow hHigh

mutual

theorem Regex.blocks_closed : ∀ (r : Regex) (base slot : Nat), p.HasCode base (r.code base slot) →
    ∀ b ∈ r.blocks base slot, b.Closed p
  | .seq items, base, slot, hCode, b, h => by
    rcases List.mem_cons.1 h with rfl | h
    · exact Block.closed_of_hasCode hCode
    · exact itemsBlocks_closed items base slot hCode b h
  | .alt branches, base, slot, hCode, b, h => by
    rcases List.mem_cons.1 h with rfl | h
    · exact Block.closed_of_hasCode hCode
    · exact branchesBlocks_closed branches (base + 1) slot _ hCode.tail b h
  | .group _ body, base, slot, hCode, b, h => by
    rcases List.mem_cons.1 h with rfl | h
    · exact Block.closed_of_hasCode hCode
    · exact Regex.blocks_closed body base slot hCode b h
  | .leaf _, _, _, hCode, b, h => by
    rw [List.mem_singleton.1 h]
    exact Block.closed_of_hasCode hCode

theorem itemsBlocks_closed : ∀ (items : List (Regex × Quantifier)) (base slot : Nat),
    p.HasCode base (itemsCode base slot items) → ∀ b ∈ itemsBlocks base slot items, b.Closed p
  | [], _, _, _, _, h => by cases h
  | (r, q) :: items, base, slot, hCode, b, h => by
    obtain ⟨hLoop, hRest⟩ := hCode.items
    rcases List.mem_append.1 h with hBody | hLater
    · exact Regex.blocks_closed r _ _ hLoop.body b hBody
    · exact itemsBlocks_closed items _ _ hRest b hLater

theorem branchesBlocks_closed : ∀ (branches : List Regex) (base slot exit : Nat),
    p.HasCode base (branchesCode base slot exit branches) →
    ∀ b ∈ branchesBlocks base slot branches, b.Closed p
  | [], _, _, _, _, _, h => by cases h
  | r :: branches, base, slot, exit, hCode, b, h => by
    obtain ⟨hFirst, -, hRest⟩ := hCode.branches
    rcases List.mem_append.1 h with hBranch | hLater
    · exact Regex.blocks_closed r base slot hFirst b hBranch
    · exact branchesBlocks_closed branches _ _ exit hRest b hLater

end

/-! ## Blocks are entered at their start -/

/-- What is outside of the block but between the addresses `lo` and `hi` leads nowhere into the
block but to its start. -/
def Block.EnteredAtStart (b : Block) (p : Program) (lo hi : Nat) : Prop :=
  ∀ pc i, lo ≤ pc → pc < hi → p.code[pc]? = some i → pc < b.base ∨ b.stop ≤ pc →
    ∀ t ∈ i.targets pc, b.base ≤ t → t < b.stop → t = b.base

/-- From inside its own block nothing is outside of it. -/
theorem Block.enteredAtStart_self (b : Block) : b.EnteredAtStart p b.base b.stop := by
  intro pc i hLow hHigh _ hOutside
  omega

/-- Branches start only where blocks do. -/
theorem eq_base_of_mem_branchStarts : ∀ (branches : List Regex) (base slot : Nat),
    ∀ b ∈ branchesBlocks base slot branches, ∀ t ∈ branchStarts base branches,
      b.base ≤ t → t < b.stop → t = b.base
  | [], _, _, _, h, _, _ => by cases h
  | r :: branches, base, slot, b, h, t, ht => by
    intro hLow hHigh
    rcases List.mem_append.1 h with hFirst | hLater
    · have hRange := Regex.blocks_range r _ _ b hFirst
      rcases List.mem_cons.1 ht with rfl | ht
      · omega
      · have := branchStarts_range branches _ t ht
        omega
    · have hRange := branchesBlocks_range branches _ _ b hLater
      rcases List.mem_cons.1 ht with rfl | ht
      · omega
      · exact eq_base_of_mem_branchStarts branches _ _ b hLater t ht hLow hHigh

mutual

theorem Regex.blocks_entered : ∀ (r : Regex) (base slot : Nat), p.HasCode base (r.code base slot) →
    ∀ b ∈ r.blocks base slot, b.EnteredAtStart p base (base + r.codeSize)
  | .seq items, base, slot, hCode, b, h => by
    rcases List.mem_cons.1 h with rfl | h
    · exact Block.enteredAtStart_self _
    · exact itemsBlocks_entered items base slot hCode b h
  | .alt branches, base, slot, hCode, b, h => by
    rcases List.mem_cons.1 h with rfl | h
    · exact Block.enteredAtStart_self _
    · have hSize : base + (Regex.alt branches).codeSize = base + 1 + branchesCodeSize branches := by
        rw [Regex.codeSize]
        omega
      have hRange := branchesBlocks_range branches (base + 1) slot b h
      intro pc i hLow hHigh hAt hOutside t ht hLow' hHigh'
      rw [hSize] at hHigh
      rcases Nat.eq_or_lt_of_le hLow with rfl | hInside
      · rw [hCode.head] at hAt
        cases hAt
        simp only [Instruction.targets, Instruction.ahead, Instruction.back, List.append_nil,
          List.mem_cons] at ht
        rcases ht with rfl | ht
        · omega
        · exact eq_base_of_mem_branchStarts branches _ slot b h t ht hLow' hHigh'
      · exact branchesBlocks_entered branches (base + 1) slot _ hCode.tail rfl b h pc i hInside
          hHigh hAt hOutside t ht hLow' hHigh'
  | .group _ body, base, slot, hCode, b, h => by
    rcases List.mem_cons.1 h with rfl | h
    · exact Block.enteredAtStart_self _
    · exact Regex.blocks_entered body base slot hCode b h
  | .leaf _, _, _, _, b, h => by
    rw [List.mem_singleton.1 h]
    exact Block.enteredAtStart_self _

theorem itemsBlocks_entered : ∀ (items : List (Regex × Quantifier)) (base slot : Nat),
    p.HasCode base (itemsCode base slot items) →
    ∀ b ∈ itemsBlocks base slot items, b.EnteredAtStart p base (base + itemsCodeSize items)
  | [], _, _, _, _, h => by cases h
  | (r, q) :: items, base, slot, hCode, b, h => by
    obtain ⟨hLoop, hRest⟩ := hCode.items
    rw [itemsCodeSize]
    intro pc i hLow hHigh hAt hOutside t ht hLow' hHigh'
    have hPlace := (hLoop.place hLow hAt).targets_or
    rcases List.mem_append.1 h with hBody | hLater
    · -- Of the instructions around the body, only the head of the loop leads there.
      have hRange := Regex.blocks_range r _ _ b hBody
      rcases hPlace with hOwn | ⟨hInside, hEnd⟩ | hBehind
      · have := hOwn t ht
        omega
      · exact Regex.blocks_entered r _ _ hLoop.body b hBody pc i hInside hEnd hAt hOutside t ht
          hLow' hHigh'
      · have := (itemsConfined items _ _ hRest pc i hBehind (by omega) hAt).targets hBehind
          (by omega) t ht
        omega
    · -- The exit of the loop leads to the start of the later items.
      have hRange := itemsBlocks_range items _ _ b hLater
      rcases hPlace with hOwn | ⟨hInside, hEnd⟩ | hBehind
      · have := hOwn t ht
        omega
      · have := (r.confined _ _ hLoop.body pc i hInside hEnd hAt).targets hInside hEnd t ht
        omega
      · exact itemsBlocks_entered items _ _ hRest b hLater pc i hBehind (by omega) hAt hOutside t ht
          hLow' hHigh'

theorem branchesBlocks_entered : ∀ (branches : List Regex) (base slot exit : Nat),
    p.HasCode base (branchesCode base slot exit branches) →
    exit = base + branchesCodeSize branches →
    ∀ b ∈ branchesBlocks base slot branches, b.EnteredAtStart p base exit
  | [], _, _, _, _, _, _, h => by cases h
  | r :: branches, base, slot, exit, hCode, hExit, b, h => by
    obtain ⟨hFirst, hJump, hRest⟩ := hCode.branches
    rw [branchesCodeSize] at hExit
    intro pc i hLow hHigh hAt hOutside t ht hLow' hHigh'
    have hPlace := (branchPlace hJump hAt).targets_or
    rcases List.mem_append.1 h with hBranch | hLater
    · have hRange := Regex.blocks_range r _ _ b hBranch
      rcases hPlace with hOwn | hInside | hBehind
      · have := hOwn t ht
        omega
      · exact Regex.blocks_entered r _ _ hFirst b hBranch pc i hLow hInside hAt hOutside t ht hLow'
          hHigh'
      · have := (branchesConfined branches _ _ exit hRest (by omega) pc i hBehind hHigh hAt).targets
          hBehind hHigh t ht
        omega
    · have hRange := branchesBlocks_range branches _ _ b hLater
      rcases hPlace with hOwn | hInside | hBehind
      · have := hOwn t ht
        omega
      · have := (r.confined _ _ hFirst pc i hLow hInside hAt).targets hLow hInside t ht
        omega
      · exact branchesBlocks_entered branches _ _ exit hRest (by omega) b hLater pc i hBehind hHigh
          hAt hOutside t ht hLow' hHigh'

end

end BacktrackRegex
