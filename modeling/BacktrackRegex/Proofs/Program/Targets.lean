import BacktrackRegex.Proofs.Program.Layout

/-!
# Where instructions lead

Every address that an instruction names, and every slot that it uses, belongs to the block in which
the instruction stands.  Jumps, forks and exits lead ahead and no further than right behind the
block; only the end of an iteration leads back, to the head of its own loop.

* `Instruction.ahead`, `Instruction.back`, `Instruction.targets`, `Instruction.slot?` — what an
  instruction names;
* `LoopPlace`, `BranchPlace` — where an address stands in a loop, or among branches;
* `Regex.confined` — the instructions in the block of a regex;
* `Regex.exists_loop` — each slot of a regex belongs to a single loop.
-/

set_option autoImplicit false

namespace BacktrackRegex

/-! ## What an instruction names -/

namespace Instruction

/-- The addresses of branches, the target of a jump, and the exit of a loop. -/
def ahead : Instruction → List Nat
  | .fork starts => starts.toList
  | .jump target => [target]
  | .loopHead _ _ exit => [exit]
  | _ => []

/-- The head that the end of an iteration leads back to. -/
def back : Instruction → List Nat
  | .loopEnd _ head => [head]
  | _ => []

/-- Every address that the machine can come to from the instruction at `pc`: the next one, and
those that the instruction names. -/
def targets (pc : Nat) (i : Instruction) : List Nat := (pc + 1) :: (i.ahead ++ i.back)

/-- The slot of the loop that the instruction belongs to. -/
def slot? : Instruction → Option Nat
  | .loopStart slot => some slot
  | .loopHead slot _ _ => some slot
  | .loopEnd slot _ => some slot
  | _ => none

/-- The instruction at `pc` keeps to a block from `base` up to `stop` that has the slots from `lo`
up to `hi`. -/
structure Confined (base stop lo hi pc : Nat) (i : Instruction) : Prop where
  ne_accept : i ≠ .accept
  ahead : ∀ t ∈ i.ahead, pc < t ∧ t ≤ stop
  back : ∀ t ∈ i.back, base ≤ t ∧ t < pc
  slot : ∀ s ∈ i.slot?, lo ≤ s ∧ s < hi

variable {base stop lo hi pc base' stop' lo' hi' : Nat} {i : Instruction}

theorem Confined.mono (h : i.Confined base stop lo hi pc) (hBase : base' ≤ base)
    (hStop : stop ≤ stop') (hLo : lo' ≤ lo) (hHi : hi ≤ hi') :
    i.Confined base' stop' lo' hi' pc where
  ne_accept := h.ne_accept
  ahead t ht := ⟨(h.ahead t ht).1, Nat.le_trans (h.ahead t ht).2 hStop⟩
  back t ht := ⟨Nat.le_trans hBase (h.back t ht).1, (h.back t ht).2⟩
  slot s hs := ⟨Nat.le_trans hLo (h.slot s hs).1, Nat.lt_of_lt_of_le (h.slot s hs).2 hHi⟩

/-- From inside a block the machine comes only to places in it, and to the one right behind it. -/
theorem Confined.targets (h : i.Confined base stop lo hi pc) (hLow : base ≤ pc)
    (hHigh : pc < stop) : ∀ t ∈ i.targets pc, base ≤ t ∧ t ≤ stop := by
  intro t ht
  rcases List.mem_cons.1 ht with rfl | ht
  · omega
  · rcases List.mem_append.1 ht with hAhead | hBack
    · have := h.ahead t hAhead
      omega
    · have := h.back t hBack
      omega

end Instruction

/-! ## Places in a block -/

/-- An address `pc` from the start of a loop on, with the instruction that stands there: one of the
three of the loop, one of its body, or one behind the loop. -/
inductive LoopPlace (base slot size : Nat) (q : Quantifier) (pc : Nat) : Instruction → Prop
  | start (hPc : pc = base) : LoopPlace base slot size q pc (.loopStart slot)
  | head (hPc : pc = base + 1) : LoopPlace base slot size q pc (.loopHead slot q (base + size + 3))
  | body {i : Instruction} (hLow : base + 2 ≤ pc) (hHigh : pc < base + 2 + size) :
    LoopPlace base slot size q pc i
  | close (hPc : pc = base + 2 + size) : LoopPlace base slot size q pc (.loopEnd slot (base + 1))
  | later {i : Instruction} (hLow : base + size + 3 ≤ pc) : LoopPlace base slot size q pc i

/-- An address `pc` from the start of a branch on, with the instruction that stands there: one of
the branch, the jump behind it, or one of the later branches. -/
inductive BranchPlace (base size exit pc : Nat) : Instruction → Prop
  | inside {i : Instruction} (hHigh : pc < base + size) : BranchPlace base size exit pc i
  | jump (hPc : pc = base + size) : BranchPlace base size exit pc (.jump exit)
  | later {i : Instruction} (hLow : base + size + 1 ≤ pc) : BranchPlace base size exit pc i

variable {p : Program} {base slot pc : Nat} {i : Instruction}

theorem Program.LoopAt.place {q : Quantifier} {r : Regex} (h : p.LoopAt base slot q r)
    (hLow : base ≤ pc) (hAt : p.code[pc]? = some i) : LoopPlace base slot r.codeSize q pc i := by
  rcases (by omega : pc = base ∨ pc = base + 1 ∨ (base + 2 ≤ pc ∧ pc < base + 2 + r.codeSize) ∨
      pc = base + 2 + r.codeSize ∨ base + r.codeSize + 3 ≤ pc) with
    hPc | hPc | ⟨hBody, hEnd⟩ | hPc | hLater
  · rw [hPc, h.start] at hAt
    cases hAt
    exact .start hPc
  · rw [hPc, h.head] at hAt
    cases hAt
    exact .head hPc
  · exact .body hBody hEnd
  · rw [hPc, h.close] at hAt
    cases hAt
    exact .close hPc
  · exact .later hLater

theorem branchPlace {size exit : Nat} (hJump : p.code[base + size]? = some (.jump exit))
    (hAt : p.code[pc]? = some i) : BranchPlace base size exit pc i := by
  rcases Nat.lt_trichotomy pc (base + size) with hInside | hPc | hLater
  · exact .inside hInside
  · rw [hPc, hJump] at hAt
    cases hAt
    exact .jump hPc
  · exact .later hLater

/-- An instruction of the loop itself leads to its head, to its body or to its exit. -/
theorem LoopPlace.targets_or {size : Nat} {q : Quantifier} (h : LoopPlace base slot size q pc i) :
    (∀ t ∈ i.targets pc, t = base + 1 ∨ t = base + 2 ∨ t = base + size + 3) ∨
      (base + 2 ≤ pc ∧ pc < base + 2 + size) ∨ base + size + 3 ≤ pc := by
  cases h with
  | start hPc =>
    simp [Instruction.targets, Instruction.ahead, Instruction.back, hPc]
  | head hPc =>
    simp [Instruction.targets, Instruction.ahead, Instruction.back, hPc]
  | body hLow hHigh => exact .inr (.inl ⟨hLow, hHigh⟩)
  | close hPc =>
    left
    simp [Instruction.targets, Instruction.ahead, Instruction.back, hPc]
    omega
  | later hLow => exact .inr (.inr hLow)

/-- An instruction with another slot than that of the loop stands in the body or behind the loop. -/
theorem LoopPlace.of_slot_ne {size s : Nat} {q : Quantifier}
    (h : LoopPlace base slot size q pc i) (hSlot : i.slot? = some s) (hOther : s ≠ slot) :
    (base + 2 ≤ pc ∧ pc < base + 2 + size) ∨ base + size + 3 ≤ pc := by
  cases h with
  | start _ => exact absurd (Option.some.inj hSlot).symm hOther
  | head _ => exact absurd (Option.some.inj hSlot).symm hOther
  | close _ => exact absurd (Option.some.inj hSlot).symm hOther
  | body hLow hHigh => exact .inl ⟨hLow, hHigh⟩
  | later hLow => exact .inr hLow

/-- The jump behind a branch leads to the exit, if not simply on. -/
theorem BranchPlace.targets_or {size exit : Nat} (h : BranchPlace base size exit pc i) :
    (∀ t ∈ i.targets pc, t = base + size + 1 ∨ t = exit) ∨ pc < base + size ∨
      base + size + 1 ≤ pc := by
  cases h with
  | jump hPc => simp [Instruction.targets, Instruction.ahead, Instruction.back, hPc]
  | inside hHigh => exact .inr (.inl hHigh)
  | later hLow => exact .inr (.inr hLow)

/-- The jump behind a branch has no slot. -/
theorem BranchPlace.of_slot {size exit s : Nat} (h : BranchPlace base size exit pc i)
    (hSlot : i.slot? = some s) : pc < base + size ∨ base + size + 1 ≤ pc := by
  cases h with
  | jump _ => cases hSlot
  | inside hHigh => exact .inl hHigh
  | later hLow => exact .inr hLow

/-- The branches start inside their block. -/
theorem branchStarts_range : ∀ (branches : List Regex) (base : Nat),
    ∀ t ∈ branchStarts base branches, base ≤ t ∧ t < base + branchesCodeSize branches
  | [], _, _, ht => by cases ht
  | r :: branches, base, t, ht => by
    rw [branchesCodeSize]
    rcases List.mem_cons.1 ht with rfl | hLater
    · omega
    · have := branchStarts_range branches (base + r.codeSize + 1) t hLater
      omega

/-! ## Blocks -/

mutual

/-- The instructions in the block of a regex keep to it. -/
theorem Regex.confined : ∀ (r : Regex) (base slot : Nat), p.HasCode base (r.code base slot) →
    ∀ pc i, base ≤ pc → pc < base + r.codeSize → p.code[pc]? = some i →
    i.Confined base (base + r.codeSize) slot (slot + r.slotCount) pc
  | .seq items, base, slot, hCode => itemsConfined items base slot hCode
  | .alt branches, base, slot, hCode => by
    intro pc i hLow hHigh hAt
    have hSize : base + (Regex.alt branches).codeSize = base + 1 + branchesCodeSize branches := by
      rw [Regex.codeSize]
      omega
    rw [hSize] at hHigh ⊢
    rcases Nat.eq_or_lt_of_le hLow with rfl | hInside
    · rw [hCode.head] at hAt
      cases hAt
      refine ⟨nofun, fun t ht => ?_, nofun, nofun⟩
      have := branchStarts_range branches (base + 1) t ht
      omega
    · have hBranches := branchesConfined branches (base + 1) slot _ hCode.tail rfl pc i hInside
        hHigh hAt
      exact hBranches.mono (Nat.le_succ base) (Nat.le_refl _) (Nat.le_refl _) (Nat.le_refl _)
  | .group _ body, base, slot, hCode => Regex.confined body base slot hCode
  | .leaf set, base, slot, hCode => by
    intro pc i hLow hHigh hAt
    have hPc : pc = base := Nat.le_antisymm (Nat.le_of_lt_succ hHigh) hLow
    rw [hPc, hCode.head] at hAt
    cases hAt
    exact ⟨nofun, nofun, nofun, nofun⟩

theorem itemsConfined : ∀ (items : List (Regex × Quantifier)) (base slot : Nat),
    p.HasCode base (itemsCode base slot items) →
    ∀ pc i, base ≤ pc → pc < base + itemsCodeSize items → p.code[pc]? = some i →
    i.Confined base (base + itemsCodeSize items) slot (slot + itemsSlotCount items) pc
  | [], base, _, _, pc, _, hLow, hHigh, _ => absurd hHigh (Nat.not_lt.2 hLow)
  | (r, q) :: items, base, slot, hCode, pc, i, hLow, hHigh, hAt => by
    obtain ⟨hLoop, hRest⟩ := hCode.items
    rw [itemsCodeSize, itemsSlotCount] at *
    cases hLoop.place hLow hAt with
    | start hPc =>
      refine ⟨nofun, nofun, nofun, ?_⟩
      rintro s ⟨⟩
      omega
    | head hPc =>
      refine ⟨nofun, ?_, nofun, ?_⟩
      · intro t ht
        rw [List.mem_singleton.1 ht]
        omega
      · rintro s ⟨⟩
        omega
    | body hBody hEnd =>
      have hInside := Regex.confined r _ _ hLoop.body pc i hBody hEnd hAt
      exact hInside.mono (by omega) (by omega) (by omega) (by omega)
    | close hPc =>
      refine ⟨nofun, nofun, ?_, ?_⟩
      · intro t ht
        rw [List.mem_singleton.1 ht]
        omega
      · rintro s ⟨⟩
        omega
    | later hLater =>
      have hInside := itemsConfined items _ _ hRest pc i hLater (by omega) hAt
      exact hInside.mono (by omega) (by omega) (by omega) (by omega)

theorem branchesConfined : ∀ (branches : List Regex) (base slot exit : Nat),
    p.HasCode base (branchesCode base slot exit branches) →
    exit = base + branchesCodeSize branches →
    ∀ pc i, base ≤ pc → pc < exit → p.code[pc]? = some i →
    i.Confined base exit slot (slot + branchesSlotCount branches) pc
  | [], _, _, _, _, hExit, _, _, hLow, hHigh, _ => by
    rw [hExit] at hHigh
    exact absurd hHigh (Nat.not_lt.2 hLow)
  | r :: branches, base, slot, exit, hCode, hExit, pc, i, hLow, hHigh, hAt => by
    obtain ⟨hFirst, hJump, hRest⟩ := hCode.branches
    rw [branchesCodeSize] at hExit
    rw [branchesSlotCount]
    cases branchPlace hJump hAt with
    | inside hInside =>
      have hBranch := Regex.confined r base slot hFirst pc i hLow hInside hAt
      exact hBranch.mono (Nat.le_refl _) (by omega) (Nat.le_refl _) (by omega)
    | jump hPc =>
      refine ⟨nofun, fun t ht => ?_, nofun, nofun⟩
      rw [List.mem_singleton.1 ht]
      omega
    | later hLater =>
      have hBranch := branchesConfined branches _ _ exit hRest (by omega) pc i hLater hHigh hAt
      exact hBranch.mono (by omega) (Nat.le_refl _) (by omega) (by omega)

end

/-! ## Loops -/

namespace Program

/-- The loop with this slot starts at `first`, where its head follows, and an iteration ends at
`stop`, where the exit follows.  Among the instructions from `lo` up to `hi` these three alone have
the slot. -/
structure HasLoop (p : Program) (lo hi slot first last : Nat) (q : Quantifier) : Prop where
  low : lo ≤ first
  ordered : first + 1 < last
  high : last < hi
  start : p.code[first]? = some (.loopStart slot)
  head : p.code[first + 1]? = some (.loopHead slot q (last + 1))
  close : p.code[last]? = some (.loopEnd slot (first + 1))
  only : ∀ pc i, lo ≤ pc → pc < hi → p.code[pc]? = some i → i.slot? = some slot →
    pc = first ∨ pc = first + 1 ∨ pc = last

/-- In a wider part of the code the loop is still the only one with its slot if what has been added
has other slots. -/
theorem HasLoop.widen {lo hi lo' hi' slot first last : Nat} {q : Quantifier}
    (h : p.HasLoop lo hi slot first last q) (hLo : lo' ≤ lo) (hHi : hi ≤ hi')
    (hOther : ∀ pc i, lo' ≤ pc → pc < hi' → p.code[pc]? = some i → i.slot? = some slot →
      lo ≤ pc ∧ pc < hi) : p.HasLoop lo' hi' slot first last q where
  low := Nat.le_trans hLo h.low
  ordered := h.ordered
  high := Nat.lt_of_lt_of_le h.high hHi
  start := h.start
  head := h.head
  close := h.close
  only pc i hLow hHigh hAt hSlot := by
    obtain ⟨hLow', hHigh'⟩ := hOther pc i hLow hHigh hAt hSlot
    exact h.only pc i hLow' hHigh' hAt hSlot

end Program

mutual

/-- Each of the slots of a regex belongs to a single loop in its block. -/
theorem Regex.exists_loop : ∀ (r : Regex) (base slot : Nat), p.HasCode base (r.code base slot) →
    ∀ s, slot ≤ s → s < slot + r.slotCount →
    ∃ first last q, p.HasLoop base (base + r.codeSize) s first last q
  | .seq items, base, slot, hCode => items_exists_loop items base slot hCode
  | .alt branches, base, slot, hCode => by
    intro s hLo hHi
    obtain ⟨first, last, q, hLoop⟩ :=
      branches_exists_loop branches (base + 1) slot _ hCode.tail rfl s hLo hHi
    rw [Regex.codeSize]
    refine ⟨first, last, q, hLoop.widen (Nat.le_succ base) (by omega) ?_⟩
    intro pc i hLow hHigh hAt hSlot
    rcases Nat.eq_or_lt_of_le hLow with rfl | hInside
    · rw [hCode.head] at hAt
      cases hAt
      cases hSlot
    · exact ⟨hInside, by omega⟩
  | .group _ body, base, slot, hCode => Regex.exists_loop body base slot hCode
  | .leaf _, _, _, _ => fun _ hLo hHi => absurd hHi (Nat.not_lt.2 hLo)

theorem items_exists_loop : ∀ (items : List (Regex × Quantifier)) (base slot : Nat),
    p.HasCode base (itemsCode base slot items) →
    ∀ s, slot ≤ s → s < slot + itemsSlotCount items →
    ∃ first last q, p.HasLoop base (base + itemsCodeSize items) s first last q
  | [], _, _, _, _, hLo, hHi => absurd hHi (Nat.not_lt.2 hLo)
  | (r, q) :: items, base, slot, hCode, s, hLo, hHi => by
    obtain ⟨hLoop, hRest⟩ := hCode.items
    rw [itemsSlotCount] at hHi
    rw [itemsCodeSize]
    -- The slot of an instruction says in which of the three parts it stands.
    have hInBody := Regex.confined r _ _ hLoop.body
    have hLater := itemsConfined items _ _ hRest
    rcases (by omega : s = slot ∨ (slot + 1 ≤ s ∧ s < slot + 1 + r.slotCount) ∨
      slot + 1 + r.slotCount ≤ s) with rfl | ⟨hLow, hHigh⟩ | hLow
    · refine ⟨base, base + 2 + r.codeSize, q, Nat.le_refl _, by omega, by omega, hLoop.start, ?_,
        hLoop.close, ?_⟩
      · rw [hLoop.head, Nat.add_right_comm base 2]
      · intro pc i hLow hHigh hAt hSlot
        cases hLoop.place hLow hAt with
        | start hPc => exact .inl hPc
        | head hPc => exact .inr (.inl hPc)
        | close hPc => exact .inr (.inr hPc)
        | body hBody hEnd =>
          have := (hInBody pc i hBody hEnd hAt).slot s hSlot
          omega
        | later hBehind =>
          have := (hLater pc i hBehind (by omega) hAt).slot s hSlot
          omega
    · obtain ⟨first, last, q', hInner⟩ := Regex.exists_loop r _ _ hLoop.body s hLow hHigh
      refine ⟨first, last, q', hInner.widen (by omega) (by omega) ?_⟩
      intro pc i hLow' hHigh' hAt hSlot
      rcases (hLoop.place hLow' hAt).of_slot_ne hSlot (by omega) with hInside | hBehind
      · exact hInside
      · have := (hLater pc i hBehind (by omega) hAt).slot s hSlot
        omega
    · obtain ⟨first, last, q', hInner⟩ := items_exists_loop items _ _ hRest s hLow (by omega)
      refine ⟨first, last, q', hInner.widen (by omega) (by omega) ?_⟩
      intro pc i hLow' hHigh' hAt hSlot
      rcases (hLoop.place hLow' hAt).of_slot_ne hSlot (by omega) with ⟨hBody, hEnd⟩ | hBehind
      · have := (hInBody pc i hBody hEnd hAt).slot s hSlot
        omega
      · exact ⟨hBehind, by omega⟩

theorem branches_exists_loop : ∀ (branches : List Regex) (base slot exit : Nat),
    p.HasCode base (branchesCode base slot exit branches) →
    exit = base + branchesCodeSize branches →
    ∀ s, slot ≤ s → s < slot + branchesSlotCount branches →
    ∃ first last q, p.HasLoop base exit s first last q
  | [], _, _, _, _, _, _, hLo, hHi => absurd hHi (Nat.not_lt.2 hLo)
  | r :: branches, base, slot, exit, hCode, hExit, s, hLo, hHi => by
    obtain ⟨hFirst, hJump, hRest⟩ := hCode.branches
    rw [branchesSlotCount] at hHi
    rw [branchesCodeSize] at hExit
    have hInFirst := Regex.confined r base slot hFirst
    have hLater := branchesConfined branches _ _ exit hRest (by omega)
    rcases Nat.lt_or_ge s (slot + r.slotCount) with hHigh | hLow
    · obtain ⟨first, last, q, hInner⟩ := Regex.exists_loop r base slot hFirst s hLo hHigh
      refine ⟨first, last, q, hInner.widen (Nat.le_refl _) (by omega) ?_⟩
      intro pc i hLow' hHigh' hAt hSlot
      rcases (branchPlace hJump hAt).of_slot hSlot with hInside | hBehind
      · exact ⟨hLow', hInside⟩
      · have := (hLater pc i hBehind hHigh' hAt).slot s hSlot
        omega
    · obtain ⟨first, last, q, hInner⟩ :=
        branches_exists_loop branches _ _ exit hRest (by omega) s hLow (by omega)
      refine ⟨first, last, q, hInner.widen (by omega) (Nat.le_refl _) ?_⟩
      intro pc i hLow' hHigh' hAt hSlot
      rcases (branchPlace hJump hAt).of_slot hSlot with hInside | hBehind
      · have := (hInFirst pc i hLow' hInside hAt).slot s hSlot
        omega
      · exact ⟨hBehind, hHigh'⟩

end

end BacktrackRegex
