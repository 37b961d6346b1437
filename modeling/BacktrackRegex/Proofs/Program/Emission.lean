import BacktrackRegex.Program.Emitter
import BacktrackRegex.Proofs.Program.Layout

/-!
# Emitted code is the code that sizes lay out

What is emitted for a regex, with its placeholders patched, is the block of the regex as its sizes
lay it out, at the address and from the slot where the emitter stands.

* `Emitter.extend` — a block behind what has been emitted; patching an instruction of the block
  patches the block;
* `Regex.emit_eq` — what is emitted for a regex is its code;
* `Program.assemble_eq_compile` — the two ways to make a program agree.
-/

set_option autoImplicit false

namespace BacktrackRegex

namespace Emitter

/-! ## Blocks behind emitted code -/

/-- The emitter after a block of instructions that uses so many slots. -/
def extend (e : Emitter) (block : List Instruction) (slots : Nat) : Emitter :=
  ⟨e.code ++ block.toArray, e.slots + slots⟩

variable (e : Emitter) (before after : List Instruction) (slots : Nat)

@[simp] theorem next_extend : (e.extend before slots).next = e.next + before.length := by
  simp [next, extend]

@[simp] theorem slots_extend : (e.extend before slots).slots = e.slots + slots := rfl

@[simp] theorem extend_extend (more : Nat) :
    (e.extend before slots).extend after more = e.extend (before ++ after) (slots + more) := by
  simp [extend, Nat.add_assoc]

theorem extend_nil : e.extend [] 0 = e := by
  simp [extend]

theorem push_eq (instruction : Instruction) : e.push instruction = e.extend [instruction] 0 := by
  simp [push, extend]

theorem openLoop_eq (q : Quantifier) :
    e.openLoop q = e.extend [.loopStart e.slots, .loopHead e.slots q 0] 1 := by
  simp only [openLoop, push_eq, extend]
  rfl

/-! ## Patching -/

theorem patch_extend (placeholder instruction : Instruction) :
    (e.extend (before ++ placeholder :: after) slots).patch (e.next + before.length) instruction =
      e.extend (before ++ instruction :: after) slots := by
  simp [patch, extend, next]

theorem setExit_extend (slot placeholder exit : Nat) (q : Quantifier) :
    (e.extend (before ++ .loopHead slot q placeholder :: after) slots).setExit
        (e.next + before.length) exit =
      e.extend (before ++ .loopHead slot q exit :: after) slots := by
  have hHead : (e.extend (before ++ .loopHead slot q placeholder :: after) slots).code[
      e.next + before.length]? = some (.loopHead slot q placeholder) := by
    simp [extend, next]
  simp only [setExit, hHead, patch_extend]

theorem closeLoop_extend (slot : Nat) (q : Quantifier) (body : List Instruction) :
    (e.extend (.loopStart slot :: .loopHead slot q 0 :: body) slots).closeLoop slot (e.next + 1) =
      e.extend (.loopStart slot :: .loopHead slot q (e.next + body.length + 3) ::
        (body ++ [.loopEnd slot (e.next + 1)])) slots := by
  have hExit : e.next + (body.length + 1 + 1 + 1) = e.next + body.length + 3 := by omega
  have hPatched := e.setExit_extend [.loopStart slot] (body ++ [.loopEnd slot (e.next + 1)]) slots
    slot 0 (e.next + body.length + 3) q
  simpa [closeLoop, push_eq, hExit] using hPatched

end Emitter

/-! ## Alternations -/

/-- Addresses of the jumps behind the branches, the first of which starts at `base`. -/
def branchJumps (base : Nat) : List Regex → List Nat
  | [] => []
  | r :: branches => (base + r.codeSize) :: branchJumps (base + r.codeSize + 1) branches

/-- Patching all the jumps of an alternation makes them lead to the target. -/
theorem Emitter.aim_branchJumps (e : Emitter) (placeholder target : Nat) (branches : List Regex) :
    ∀ (before : List Instruction) (base slot slots : Nat), base = e.next + before.length →
      (e.extend (before ++ branchesCode base slot placeholder branches) slots).aim
          (branchJumps base branches) target =
        e.extend (before ++ branchesCode base slot target branches) slots := by
  induction branches with
  | nil =>
    intros
    rfl
  | cons r branches ih =>
    rintro before base slot slots rfl
    have hJump : e.next + before.length + r.codeSize =
        e.next + (before ++ r.code (e.next + before.length) slot).length := by
      rw [List.length_append, r.code_length, Nat.add_assoc]
    rw [branchJumps, aim, List.foldl_cons, ← aim]
    simp only [branchesCode]
    rw [← List.append_assoc, hJump, e.patch_extend]
    -- The block up to the patched jump is what the later jumps have before them.
    have hLater := ih (before ++ r.code (e.next + before.length) slot ++ [.jump target]) _
      (slot + r.slotCount) slots rfl
    simpa only [List.append_assoc, List.singleton_append, List.length_append,
      List.length_singleton, ← Nat.add_assoc] using hLater

mutual

/-- What is emitted for a regex is its code, at the address and from the slot that come next. -/
theorem Regex.emit_eq : ∀ (r : Regex) (e : Emitter),
    r.emit e = e.extend (r.code e.next e.slots) r.slotCount
  | .seq items, e => emitItems_eq items e
  | .alt branches, e => by
    have hStop : e.next + (branchesCodeSize branches + 1) =
        e.next + 1 + branchesCodeSize branches := by
      omega
    have hAimed := e.aim_branchJumps 0 (e.next + 1 + branchesCodeSize branches) branches
      [.fork #[]] (e.next + 1) e.slots (branchesSlotCount branches) rfl
    rw [Regex.emit, Emitter.push_eq, emitBranches_eq]
    simp only [Emitter.next_extend, Emitter.slots_extend, Emitter.extend_extend,
      List.length_cons, List.length_nil, List.cons_append, List.nil_append, branchesCode_length,
      Nat.add_zero, Nat.zero_add, hStop] at hAimed ⊢
    rw [hAimed]
    exact e.patch_extend [] _ _ (.fork #[]) (.fork (branchStarts (e.next + 1) branches).toArray)
  | .group _ body, e => Regex.emit_eq body e
  | .leaf set, e => Emitter.push_eq e (.char set)

theorem emitItems_eq : ∀ (items : List (Regex × Quantifier)) (e : Emitter),
    emitItems items e = e.extend (itemsCode e.next e.slots items) (itemsSlotCount items)
  | [], e => e.extend_nil.symm
  | (r, q) :: items, e => by
    have hExit : e.next + (r.codeSize + 1 + 1 + 1) = e.next + r.codeSize + 3 := by omega
    have hSlots : e.slots + (1 + r.slotCount) = e.slots + 1 + r.slotCount := by omega
    have hTotal : 1 + r.slotCount + itemsSlotCount items =
        itemsSlotCount ((r, q) :: items) := by
      rw [itemsSlotCount, Nat.add_comm 1]
    rw [emitItems, Emitter.openLoop_eq, Regex.emit_eq r, Emitter.extend_extend]
    simp only [List.cons_append, List.nil_append]
    rw [Emitter.closeLoop_extend, emitItems_eq items]
    simp only [Emitter.next_extend, Emitter.slots_extend, Emitter.extend_extend, List.length_cons,
      List.length_nil, List.length_append, List.cons_append, List.nil_append, List.append_assoc,
      r.code_length, Nat.zero_add, hExit, hSlots, hTotal]
    rfl

theorem emitBranches_eq : ∀ (branches : List Regex) (e : Emitter),
    emitBranches branches e =
      (e.extend (branchesCode e.next e.slots 0 branches) (branchesSlotCount branches),
        branchStarts e.next branches, branchJumps e.next branches)
  | [], e => by
    rw [emitBranches, branchesCode, branchesSlotCount, e.extend_nil]
    rfl
  | r :: branches, e => by
    rw [emitBranches, Emitter.push_eq, Regex.emit_eq r, emitBranches_eq branches]
    simp only [Emitter.next_extend, Emitter.slots_extend, Emitter.extend_extend,
      List.length_append, List.length_singleton, List.append_assoc, List.singleton_append,
      r.code_length, Nat.add_zero, ← Nat.add_assoc]
    rfl

end

/-- The program that is emitted for a regex is the one that sizes lay out. -/
theorem Program.assemble_eq_compile (r : Regex) : assemble r = compile r := by
  simp [assemble, compile, Regex.emit_eq, Emitter.push_eq, Emitter.extend, Emitter.next]

end BacktrackRegex
