import BacktrackRegex.Program.Code

/-!
# Where the code of a regex stands

The code of every part of a regex is a block of its program, at an address that sizes alone
determine.

* `Program.HasCode` — a block of instructions stands at an address;
* `Program.LoopAt` — the four places of a loop around the code of its body;
* `code_length` — the block of a regex has the length that its size says.
-/

set_option autoImplicit false

namespace BacktrackRegex

/-! ## Lengths -/

mutual

theorem Regex.code_length : ∀ (r : Regex) (base slot : Nat), (r.code base slot).length = r.codeSize
  | .seq items, base, slot => itemsCode_length items base slot
  | .alt branches, base, slot => by
    rw [Regex.code, List.length_cons, branchesCode_length, Regex.codeSize]
  | .group _ body, base, slot => Regex.code_length body base slot
  | .leaf _, _, _ => rfl

theorem itemsCode_length : ∀ (items : List (Regex × Quantifier)) (base slot : Nat),
    (itemsCode base slot items).length = itemsCodeSize items
  | [], _, _ => rfl
  | (r, q) :: items, base, slot => by
    rw [itemsCode, itemsCodeSize]
    simp only [List.length_cons, List.length_append]
    rw [Regex.code_length r, itemsCode_length items]
    omega

theorem branchesCode_length : ∀ (branches : List Regex) (base slot exit : Nat),
    (branchesCode base slot exit branches).length = branchesCodeSize branches
  | [], _, _, _ => rfl
  | r :: branches, base, slot, exit => by
    rw [branchesCode, branchesCodeSize, List.length_append, List.length_cons,
      Regex.code_length r, branchesCode_length branches]
    omega

end

/-! ## Blocks -/

namespace Program

/-- The block of instructions stands at address `base` of the program. -/
def HasCode (p : Program) (base : Nat) (block : List Instruction) : Prop :=
  ∀ i instruction, block[i]? = some instruction → p.code[base + i]? = some instruction

variable {p : Program} {base slot : Nat}

theorem HasCode.head {instruction : Instruction} {block : List Instruction}
    (h : p.HasCode base (instruction :: block)) : p.code[base]? = some instruction :=
  h 0 instruction rfl

theorem HasCode.tail {instruction : Instruction} {block : List Instruction}
    (h : p.HasCode base (instruction :: block)) : p.HasCode (base + 1) block := by
  intro i instruction' hAt
  rw [Nat.add_assoc, Nat.add_comm 1 i]
  exact h (i + 1) instruction' hAt

theorem HasCode.left {block block' : List Instruction} (h : p.HasCode base (block ++ block')) :
    p.HasCode base block := by
  intro i instruction hAt
  refine h i instruction ?_
  rw [List.getElem?_append_left (List.getElem?_eq_some_iff.1 hAt).1]
  exact hAt

theorem HasCode.right {block block' : List Instruction} (h : p.HasCode base (block ++ block')) :
    p.HasCode (base + block.length) block' := by
  intro i instruction hAt
  rw [Nat.add_assoc]
  refine h (block.length + i) instruction ?_
  rw [List.getElem?_append_right (Nat.le_add_right _ _), Nat.add_sub_cancel_left]
  exact hAt

theorem hasCode_append_accept (r : Regex) :
    (compile r).HasCode 0 (r.code 0 0 ++ [Instruction.accept]) := by
  intro i instruction hAt
  rw [Nat.zero_add, compile, List.getElem?_toArray]
  exact hAt

/-- The program of a regex holds its code at address zero. -/
theorem hasCode_compile (r : Regex) : (compile r).HasCode 0 (r.code 0 0) :=
  (hasCode_append_accept r).left

/-- Behind the code of the regex stands `accept`. -/
theorem accept_compile (r : Regex) : (compile r).code[r.codeSize]? = some .accept := by
  have hAccept := (hasCode_append_accept r).right.head
  rwa [Regex.code_length, Nat.zero_add] at hAccept

/-- A loop for an item of a sequence stands at `base`: the instruction that starts it, its head,
the code of the body, and the end of an iteration. -/
structure LoopAt (p : Program) (base slot : Nat) (q : Quantifier) (r : Regex) : Prop where
  start : p.code[base]? = some (.loopStart slot)
  head : p.code[base + 1]? = some (.loopHead slot q (base + r.codeSize + 3))
  body : p.HasCode (base + 2) (r.code (base + 2) (slot + 1))
  close : p.code[base + 2 + r.codeSize]? = some (.loopEnd slot (base + 1))

/-- The code of items is a loop for the first one and the code of the others. -/
theorem HasCode.items {r : Regex} {q : Quantifier} {items : List (Regex × Quantifier)}
    (h : p.HasCode base (itemsCode base slot ((r, q) :: items))) :
    p.LoopAt base slot q r ∧
      p.HasCode (base + r.codeSize + 3)
        (itemsCode (base + r.codeSize + 3) (slot + 1 + r.slotCount) items) := by
  rw [itemsCode] at h
  have hBody := h.tail.tail
  have hClose := hBody.right
  rw [Regex.code_length] at hClose
  have hAfter : base + 1 + 1 + r.codeSize + 1 = base + r.codeSize + 3 := by omega
  have hItems := hClose.tail
  rw [hAfter] at hItems
  exact ⟨⟨h.head, h.tail.head, hBody.left, hClose.head⟩, hItems⟩

/-- The code of branches is that of the first one, a jump, and the code of the others. -/
theorem HasCode.branches {r : Regex} {branches : List Regex} {exit : Nat}
    (h : p.HasCode base (branchesCode base slot exit (r :: branches))) :
    p.HasCode base (r.code base slot) ∧ p.code[base + r.codeSize]? = some (.jump exit) ∧
      p.HasCode (base + r.codeSize + 1)
        (branchesCode (base + r.codeSize + 1) (slot + r.slotCount) exit branches) := by
  rw [branchesCode] at h
  have hJump := h.right
  rw [Regex.code_length] at hJump
  exact ⟨h.left, hJump.head, hJump.tail⟩

end Program

end BacktrackRegex
