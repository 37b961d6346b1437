import BacktrackRegex.Program.Instruction
import BacktrackRegex.Regex

/-!
# Code of a regex

The code of a regex is a block of instructions that depends on the address `base` of its first
instruction and on the first free loop slot.  Since the length of a block is known from the regex
alone (`Regex.codeSize`), and so is the number of slots it takes (`Regex.slotCount`), every address
in it is computed and none is filled in afterwards.  Emitting the instructions one by one, with
addresses patched when they are known, comes to the same code (`Program.assemble`).

* `Regex.code` — the block of a regex;
* `Program`, `Program.compile` — a whole program: the block of the regex, then `accept`.
-/

set_option autoImplicit false

namespace BacktrackRegex

/-! ## Sizes -/

mutual

/-- Number of instructions in the code of a regex. -/
def Regex.codeSize : Regex → Nat
  | .seq items => itemsCodeSize items
  | .alt branches => branchesCodeSize branches + 1
  | .group _ body => body.codeSize
  | .leaf _ => 1

/-- Number of instructions for the items of a sequence: three for each loop, and its body. -/
def itemsCodeSize : List (Regex × Quantifier) → Nat
  | [] => 0
  | (r, _) :: items => r.codeSize + 3 + itemsCodeSize items

/-- Number of instructions for the branches of an alternation: each is followed by a jump. -/
def branchesCodeSize : List Regex → Nat
  | [] => 0
  | r :: branches => r.codeSize + 1 + branchesCodeSize branches

end

mutual

/-- Number of loop slots that the code of a regex takes. -/
def Regex.slotCount : Regex → Nat
  | .seq items => itemsSlotCount items
  | .alt branches => branchesSlotCount branches
  | .group _ body => body.slotCount
  | .leaf _ => 0

/-- Number of loop slots for the items of a sequence: one each, and those of the bodies. -/
def itemsSlotCount : List (Regex × Quantifier) → Nat
  | [] => 0
  | (r, _) :: items => r.slotCount + 1 + itemsSlotCount items

/-- Number of loop slots in the branches of an alternation. -/
def branchesSlotCount : List Regex → Nat
  | [] => 0
  | r :: branches => r.slotCount + branchesSlotCount branches

end

/-! ## Code -/

/-- Addresses at which the branches start, the first one at `base`. -/
def branchStarts (base : Nat) : List Regex → List Nat
  | [] => []
  | r :: branches => base :: branchStarts (base + r.codeSize + 1) branches

mutual

/-- The code of a regex, with its first instruction at `base` and slots from `slot` on. -/
def Regex.code (base slot : Nat) : Regex → List Instruction
  | .seq items => itemsCode base slot items
  | .alt branches =>
    .fork (branchStarts (base + 1) branches).toArray ::
      branchesCode (base + 1) slot (base + 1 + branchesCodeSize branches) branches
  | .group _ body => body.code base slot
  | .leaf set => [.char set]

/-- The code of the items of a sequence: one loop after the other.  A loop takes its slot before
its body takes any. -/
def itemsCode (base slot : Nat) : List (Regex × Quantifier) → List Instruction
  | [] => []
  | (r, q) :: items =>
    let exit := base + r.codeSize + 3
    .loopStart slot :: .loopHead slot q exit ::
      (r.code (base + 2) (slot + 1) ++
        .loopEnd slot (base + 1) :: itemsCode exit (slot + 1 + r.slotCount) items)

/-- The code of the branches of an alternation, each followed by a jump to `exit`. -/
def branchesCode (base slot exit : Nat) : List Regex → List Instruction
  | [] => []
  | r :: branches =>
    r.code base slot ++
      .jump exit :: branchesCode (base + r.codeSize + 1) (slot + r.slotCount) exit branches

end

/-! ## Programs -/

/-- A regex with its code. -/
structure Program where
  regex : Regex
  code : Array Instruction
  /-- Number of loop slots that the code uses. -/
  slots : Nat

/-- The program of a regex: its code at address zero, and `accept` behind it. -/
def Program.compile (r : Regex) : Program where
  regex := r
  code := (r.code 0 0 ++ [Instruction.accept]).toArray
  slots := r.slotCount

end BacktrackRegex
