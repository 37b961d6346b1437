import BacktrackRegex.Proofs.Program.Blocks
import BacktrackRegex.Proofs.Search.Range

/-!
# The machine stays in its code

The places of the instructions of a program fit together, and so the machine never comes to an
address without an instruction, to a slot without a counter, or to an entry on the stack that does
not belong to the program.

* `Program.WellFormed` — what a program promises to the machine, `wellFormed_compile` — the program
  of a regex keeps it;
* `State.Confined` — a state that belongs to the program;
* `search_confined` — every state of a search does, and no step is broken off.
-/

set_option autoImplicit false

namespace BacktrackRegex

namespace Program

/-! ## Programs -/

/-- The instructions of the program fit together. -/
structure WellFormed (p : Program) : Prop where
  /-- The last instruction accepts, and no other one does. -/
  accept : ∀ pc, p.code[pc]? = some .accept ↔ pc + 1 = p.code.size
  /-- The target of a jump, the start of a branch and the exit of a loop come later in the code. -/
  ahead : ∀ (pc : Nat) (i : Instruction), p.code[pc]? = some i →
    ∀ t ∈ i.ahead, pc < t ∧ t < p.code.size
  /-- Instructions use the slots of the program only. -/
  slots : ∀ (pc : Nat) (i : Instruction), p.code[pc]? = some i → ∀ slot ∈ i.slot?, slot < p.slots
  /-- Each slot of the program is that of the three instructions of one loop. -/
  loops : ∀ slot < p.slots, ∃ first last q, p.HasLoop 0 p.code.size slot first last q
  /-- Where a loop starts, its head is next. -/
  start : ∀ (pc slot : Nat), p.code[pc]? = some (.loopStart slot) →
    ∃ q exit, p.code[pc + 1]? = some (.loopHead slot q exit)
  /-- The end of an iteration leads back to the head of its loop, which exits right behind it. -/
  close : ∀ (pc slot head : Nat), p.code[pc]? = some (.loopEnd slot head) →
    ∃ q, p.code[head]? = some (.loopHead slot q (pc + 1))
  /-- Every part of the regex has a block of code that is left at its end and entered at its start
  only. -/
  blocks : ∀ b ∈ p.regex.blocks 0 0, b.Closed p ∧ b.EnteredAtStart p 0 p.code.size

theorem size_compile (r : Regex) : (compile r).code.size = r.codeSize + 1 := by
  rw [compile, List.size_toArray, List.length_append, Regex.code_length, List.length_singleton]

/-- An instruction of a program belongs to the code of the regex, or is the `accept` behind it. -/
theorem confined_or_accept {r : Regex} {pc : Nat} {i : Instruction}
    (hAt : (compile r).code[pc]? = some i) :
    (pc < r.codeSize ∧ i.Confined 0 r.codeSize 0 r.slotCount pc) ∨
      (pc = r.codeSize ∧ i = .accept) := by
  have hSize : pc < r.codeSize + 1 := by
    rw [← size_compile]
    exact (Array.getElem?_eq_some_iff.1 hAt).1
  rcases Nat.lt_or_eq_of_le (Nat.le_of_lt_succ hSize) with hInside | rfl
  · have hConfined := r.confined 0 0 (hasCode_compile r) pc i (Nat.zero_le pc)
    rw [Nat.zero_add, Nat.zero_add] at hConfined
    exact .inl ⟨hInside, hConfined hInside hAt⟩
  · rw [accept_compile] at hAt
    cases hAt
    exact .inr ⟨rfl, rfl⟩

/-- Every slot has its loop, also when `accept` is looked at. -/
theorem exists_loop_compile {r : Regex} {slot : Nat} (hSlot : slot < r.slotCount) :
    ∃ first last q, (compile r).HasLoop 0 (compile r).code.size slot first last q := by
  obtain ⟨first, last, q, hLoop⟩ :=
    r.exists_loop 0 0 (hasCode_compile r) slot (Nat.zero_le slot) (by rwa [Nat.zero_add])
  rw [size_compile]
  refine ⟨first, last, q, hLoop.widen (Nat.le_refl 0) (by omega) ?_⟩
  intro pc i _ _ hAt hSlot
  rcases confined_or_accept hAt with ⟨hInside, -⟩ | ⟨-, rfl⟩
  · exact ⟨Nat.zero_le pc, by rwa [Nat.zero_add]⟩
  · cases hSlot

theorem slot_lt_compile {r : Regex} {pc slot : Nat} {i : Instruction}
    (hAt : (compile r).code[pc]? = some i) (hSlot : slot ∈ i.slot?) : slot < r.slotCount := by
  rcases confined_or_accept hAt with ⟨-, hConfined⟩ | ⟨-, rfl⟩
  · exact (hConfined.slot slot hSlot).2
  · cases hSlot

/-- The program of a regex is well formed. -/
theorem wellFormed_compile (r : Regex) : (compile r).WellFormed where
  accept pc := by
    rw [size_compile]
    constructor
    · intro hAt
      rcases confined_or_accept hAt with ⟨-, hConfined⟩ | ⟨rfl, -⟩
      · exact absurd rfl hConfined.ne_accept
      · rfl
    · intro hLast
      rw [Nat.succ.inj hLast]
      exact accept_compile r
  ahead pc i hAt t ht := by
    rw [size_compile]
    rcases confined_or_accept hAt with ⟨-, hConfined⟩ | ⟨-, rfl⟩
    · obtain ⟨hLater, hLast⟩ := hConfined.ahead t ht
      exact ⟨hLater, Nat.lt_succ_of_le hLast⟩
    · cases ht
  slots pc i hAt slot hSlot := slot_lt_compile hAt hSlot
  loops slot hSlot := exists_loop_compile hSlot
  start pc slot hAt := by
    obtain ⟨first, last, q, hLoop⟩ := exists_loop_compile (slot_lt_compile hAt rfl)
    have hSize := (Array.getElem?_eq_some_iff.1 hAt).1
    -- Of the three instructions of the loop, only the first one starts it.
    rcases hLoop.only pc _ (Nat.zero_le pc) hSize hAt rfl with rfl | rfl | rfl
    · exact ⟨q, last + 1, hLoop.head⟩
    · cases hAt.symm.trans hLoop.head
    · cases hAt.symm.trans hLoop.close
  close pc slot head hAt := by
    obtain ⟨first, last, q, hLoop⟩ := exists_loop_compile (slot_lt_compile hAt rfl)
    have hSize := (Array.getElem?_eq_some_iff.1 hAt).1
    rcases hLoop.only pc _ (Nat.zero_le pc) hSize hAt rfl with rfl | rfl | rfl
    · cases hAt.symm.trans hLoop.start
    · cases hAt.symm.trans hLoop.head
    · cases hAt.symm.trans hLoop.close
      exact ⟨q, hLoop.head⟩
  blocks b hBlock := by
    refine ⟨r.blocks_closed 0 0 (hasCode_compile r) b hBlock, ?_⟩
    have hEntered := r.blocks_entered 0 0 (hasCode_compile r) b hBlock
    rw [Nat.zero_add] at hEntered
    have hRange := r.blocks_range 0 0 b hBlock
    intro pc i hLow _ hAt hOutside t ht hLow' hHigh'
    rcases confined_or_accept hAt with ⟨hInside, -⟩ | ⟨rfl, rfl⟩
    · exact hEntered pc i hLow hInside hAt hOutside t ht hLow' hHigh'
    · -- What comes behind `accept` is behind every block.
      rw [List.mem_singleton.1 ht] at hHigh'
      omega

end Program

/-! ## States -/

/-- The entry can be taken off the stack: its branch is one of an alternation, its exit is an
address in the code, its slot has a counter. -/
def Pending.Confined (p : Program) (slots : Nat) : Pending → Prop
  | .branch pc next _ _ => ∃ starts, p.code[pc]? = some (.fork starts) ∧ next < starts.size
  | .stop exit _ _ => exit < p.code.size
  | .restore slot _ => slot < slots

/-- The state belongs to the program: there is an instruction to execute, a counter for the slot
that it uses, and all that waits can be taken off the stack. -/
structure State.Confined (p : Program) (s : State) : Prop where
  instruction : ∃ i, p.code[s.pc]? = some i ∧ ∀ slot ∈ i.slot?, slot < s.counters.size
  entries : ∀ entry ∈ s.stack, entry.Confined p s.counters.size

namespace Program

variable {p : Program} {text : Array Char} {s : State}

/-- A thread that is followed, or is already at `accept`, stands at an instruction. -/
theorem Expands.pc_lt {ts us : List Thread} (h : p.Expands text ts us)
    (hAll : ∀ u ∈ us, p.Accepts u) : ∀ t ∈ ts, t.pc < p.code.size := by
  induction h with
  | nil => exact fun t ht => absurd ht List.not_mem_nil
  | @keep t ts us _ ih =>
    rintro t' (_ | ⟨_, hLater⟩)
    · have hAccept : p.code[t.pc]? = some .accept := hAll t List.mem_cons_self
      exact (Array.getElem?_eq_some_iff.1 hAccept).1
    · exact ih (fun u hu => hAll u (List.mem_cons_of_mem _ hu)) t' hLater
  | @follow t ts ts' us _ hNext _ ih =>
    rintro t' (_ | ⟨_, hLater⟩)
    · by_contra hOutside
      simp [successors, Array.getElem?_eq_none (Nat.le_of_not_lt hOutside)] at hNext
    · exact ih hAll t' (List.mem_append_right _ hLater)

/-- Entries can be taken off the stack if the threads that wait in them stand at instructions. -/
theorem StackSound.confined {slots logSize : Nat} {entries : List Pending} {choices : List Choice}
    (h : p.StackSound slots logSize entries) (counters : Array Counter)
    (hThreads : ∀ t ∈ p.pendingThreads choices counters entries, t.pc < p.code.size) :
    ∀ entry ∈ entries, entry.Confined p slots := by
  induction entries generalizing logSize counters with
  | nil => exact fun entry hEntry => absurd hEntry List.not_mem_nil
  | cons entry rest ih =>
    cases entry with
    | restore slot counter => exact List.forall_mem_cons.2 ⟨h.1, ih h.2 _ hThreads⟩
    | stop exit pos size =>
      obtain ⟨hExit, hRest⟩ := List.forall_mem_cons.1 hThreads
      exact List.forall_mem_cons.2 ⟨hExit, ih h.2 _ hRest⟩
    | branch pc branch pos size =>
      have hRest := fun t ht => hThreads t (List.mem_append_right _ ht)
      exact List.forall_mem_cons.2 ⟨h.2.1, ih h.2.2 _ hRest⟩

/-- A state that stands for threads on their way to `accept` has an instruction to execute, and all
that waits in it can be taken off. -/
theorem Awaits.confined {us : List Thread} (h : p.Awaits text us s)
    (hAll : ∀ u ∈ us, p.Accepts u) :
    s.pc < p.code.size ∧ ∀ entry ∈ s.stack, entry.Confined p s.counters.size := by
  obtain ⟨hFirst, hWaiting⟩ := List.forall_mem_cons.1 (h.expands.pc_lt hAll)
  refine ⟨hFirst, fun entry hEntry => ?_⟩
  refine StackSound.confined h.sound s.counters hWaiting entry ?_
  rw [State.waiting, List.mem_reverse]
  exact Array.mem_toList_iff.2 hEntry

/-- Its step goes on, or ends the search. -/
theorem Awaits.step_ne_broken {us : List Thread} (h : p.Awaits text us s)
    (hAll : ∀ u ∈ us, p.Accepts u) (f : Fault) : p.step text s ≠ .broken f := by
  intro hBroken
  by_cases hAccept : p.Accepts s.thread
  · rw [step_accept hAccept] at hBroken
    cases hBroken
  · obtain ⟨ts, hLeads, -⟩ := h.expands.step_leadsTo h.sound hAll hAccept
    rw [hBroken] at hLeads
    exact hLeads

/-- The program of a regex is well formed, and unless the regex has an alternation without branches,
the machine never leaves it: in every state of a search there is an instruction to execute, whose
slot has a counter, whatever waits can be taken off the stack, and the step is not broken off. -/
theorem search_confined (r : Regex) :
    (compile r).WellFormed ∧
      (r.Branched → ∀ text n s, (compile r).stateAfter text n = some s →
        s.Confined (compile r) ∧ ∀ f, (compile r).step text s ≠ .broken f) := by
  refine ⟨wellFormed_compile r, ?_⟩
  intro hBranched text n s hState
  obtain ⟨us, hExpands, hOutcomes⟩ := becomes_outcomes r hBranched text
  have hAll := accepts_of_outcomes r hOutcomes
  have hAwaits : (compile r).Awaits text us s :=
    stateAfter_induction ⟨sound_initial _, hExpands⟩ (fun _ _ h hStep => h.step hAll hStep) hState
  obtain ⟨hPc, hEntries⟩ := hAwaits.confined hAll
  have hCounters : s.counters.size = r.slotCount := by
    have hRange : s.thread.InRange r.quantifiers := threads_inRange r hState _ List.mem_cons_self
    exact hRange.size.trans r.quantifiers_length
  refine ⟨⟨⟨_, Array.getElem?_eq_getElem hPc, fun slot hSlot => ?_⟩, hEntries⟩,
    hAwaits.step_ne_broken hAll⟩
  rw [hCounters]
  exact slot_lt_compile (Array.getElem?_eq_getElem hPc) hSlot

/-- In the search for `(?:a*){2,3}` in `aab`, the failure at the `b` leads back to the end of the
first iteration around the star, while an earlier stop still waits. -/
theorem search_confined_doubledStar :
    (compile .doubledStar).WellFormed ∧ Regex.doubledStar.Branched ∧
      ∃ s, (compile .doubledStar).stateAfter #['a', 'a', 'b'] 11 = some s ∧
        (compile .doubledStar).code[s.pc]? = some (.loopEnd 0 1) ∧ 0 < s.counters.size ∧
        .stop 6 1 2 ∈ s.stack ∧ 6 < (compile .doubledStar).code.size ∧
        ∀ f, (compile .doubledStar).step #['a', 'a', 'b'] s ≠ .broken f := by
  have hComputed : ((compile .doubledStar).stateAfter #['a', 'a', 'b'] 11).map
      (fun s => (s.pc, s.stack[4]?)) = some (6, some (.stop 6 1 2)) := by
    decide +kernel
  obtain ⟨s, hState, hFields⟩ := Option.map_eq_some_iff.1 hComputed
  obtain ⟨hPc, hEntry⟩ := Prod.mk.inj hFields
  obtain ⟨hWellFormed, hSearch⟩ := search_confined .doubledStar
  obtain ⟨hConfined, hStep⟩ := hSearch Regex.branched_doubledStar _ 11 s hState
  have hCode : (compile .doubledStar).code[s.pc]? = some (.loopEnd 0 1) := by
    rw [hPc]
    rfl
  have hWaits : .stop 6 1 2 ∈ s.stack := Array.mem_of_getElem? hEntry
  obtain ⟨i, hAt, hSlot⟩ := hConfined.instruction
  cases hCode.symm.trans hAt
  exact ⟨hWellFormed, Regex.branched_doubledStar, s, hState, hCode, hSlot 0 rfl, hWaits,
    hConfined.entries _ hWaits, hStep⟩

end Program

end BacktrackRegex
