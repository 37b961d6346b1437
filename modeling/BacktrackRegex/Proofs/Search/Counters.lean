import BacktrackRegex.Proofs.Language.Basic
import BacktrackRegex.Proofs.Program.Layout
import BacktrackRegex.Proofs.Search.Expansion

/-!
# The range of iteration counts

A loop counts no further than its maximum, and without one no further than the minimum and the
characters of the text together: an iteration that is not needed for the minimum takes a character
or is the last one.  What a loop can rely on while its body runs is that nothing in the body touches
its counter, so the range is stated along the blocks of the code.

* `Quantifier.AtHead`, `Quantifier.InBody` — counts in range, between iterations and during one;
* `Regex.Active` — a thread inside the block of a regex, with the counters of the loops around its
  place in range;
* `Regex.active_step` — a step stays inside the block or leaves it at its end;
* `countOverflows_eq_false` — no iteration count leaves its word.
-/

set_option autoImplicit false

namespace BacktrackRegex

/-! ## Counts in range -/

namespace Quantifier

/-- A count that the head of a loop can find at the place `pos` of the text. -/
structure AtHead (q : Quantifier) (count pos : Nat) : Prop where
  bounded : ∀ m, q.max = some m → count ≤ m.toNat
  unbounded : count + 1 ≤ Max.max q.min.toNat 1 + pos

/-- A counter that belongs to an iteration that has come to the place `pos` of the text. -/
structure InBody (q : Quantifier) (counter : Counter) (pos : Nat) : Prop where
  bounded : ∀ m, q.max = some m → counter.count < m.toNat
  unbounded : counter.count + 1 ≤ Max.max q.min.toNat 1 + counter.start
  start : counter.start ≤ pos

variable {q : Quantifier} {count pos pos' : Nat} {counter : Counter}

theorem atHead_zero (q : Quantifier) (pos : Nat) : q.AtHead 0 pos :=
  ⟨fun _ _ => Nat.zero_le _, by omega⟩

/-- A further iteration begins. -/
theorem AtHead.inBody (h : q.AtHead count pos) (hMore : q.allowsMore count = true) :
    q.InBody ⟨count, pos⟩ pos :=
  ⟨allowsMore_iff.1 hMore, h.unbounded, Nat.le_refl pos⟩

/-- An iteration has ended and is not the last one. -/
theorem InBody.atHead (h : q.InBody counter pos)
    (hGoesOn : ¬ (pos = counter.start ∧ q.allowsStop (counter.count + 1) = true)) :
    q.AtHead (counter.count + 1) pos := by
  have hStart := h.start
  have hCount := h.unbounded
  refine ⟨h.bounded, ?_⟩
  rw [allowsStop_iff] at hGoesOn
  omega

theorem InBody.mono (h : q.InBody counter pos) (hPos : pos ≤ pos') : q.InBody counter pos' :=
  ⟨h.bounded, h.unbounded, h.start.trans hPos⟩

/-- The count after an iteration fits its word if the text is short enough. -/
theorem InBody.count_lt {size : Nat} (h : q.InBody counter pos) (hPos : pos ≤ size)
    (hFits : q.max = none → Max.max q.min.toNat 1 + size < countCapacity) :
    counter.count + 1 < countCapacity := by
  cases hMax : q.max with
  | none =>
    have := hFits hMax
    have := h.unbounded
    have := h.start
    omega
  | some m =>
    have hWord : m.toNat < countCapacity := m.toNat_lt
    have := h.bounded m hMax
    omega

end Quantifier

/-! ## Threads inside a block -/

/-- The thread is at a place of the loop at `base` with its counter in range for that place;
`inside` says so for the body, which has `size` instructions. -/
inductive LoopActive (base slot size : Nat) (q : Quantifier) (inside : Thread → Prop) (t : Thread) :
    Prop
  | start (hPc : t.pc = base)
  | head {count : Nat} (hPc : t.pc = base + 1) (hCounter : t.counters[slot]? = some ⟨count, t.pos⟩)
    (hRange : q.AtHead count t.pos)
  | body {counter : Counter} (hInside : inside t ∨ t.pc = base + 2 + size)
    (hCounter : t.counters[slot]? = some counter) (hRange : q.InBody counter t.pos)

mutual

/-- The thread is inside the block of the regex at `base`, and the counters of the loops of the
block in which it is are in range. -/
def Regex.Active (base slot : Nat) : Regex → Thread → Prop
  | .seq items, t => ItemsActive base slot items t
  | .alt branches, t => t.pc = base ∨ BranchesActive (base + 1) slot branches t
  | .group _ body, t => body.Active base slot t
  | .leaf _, t => t.pc = base

/-- The thread is inside the block of the items. -/
def ItemsActive (base slot : Nat) : List (Regex × Quantifier) → Thread → Prop
  | [], _ => False
  | (r, q) :: items, t =>
    LoopActive base slot r.codeSize q (r.Active (base + 2) (slot + 1)) t ∨
      ItemsActive (base + r.codeSize + 3) (slot + 1 + r.slotCount) items t

/-- The thread is inside the block of the branches. -/
def BranchesActive (base slot : Nat) : List Regex → Thread → Prop
  | [], _ => False
  | r :: branches, t =>
    (r.Active base slot t ∨ t.pc = base + r.codeSize) ∨
      BranchesActive (base + r.codeSize + 1) (slot + r.slotCount) branches t

end

/-! ## Entering a block -/

mutual

/-- A thread at the start of a block is inside it, unless there is nothing in the block. -/
theorem Regex.active_of_pc : ∀ (r : Regex) (base slot : Nat) {t : Thread}, t.pc = base →
    r.Active base slot t ∨ t.pc = base + r.codeSize
  | .seq items, base, slot, _, h => itemsActive_of_pc items base slot h
  | .alt _, _, _, _, h => .inl (.inl h)
  | .group _ body, base, slot, _, h => Regex.active_of_pc body base slot h
  | .leaf _, _, _, _, h => .inl h

theorem itemsActive_of_pc : ∀ (items : List (Regex × Quantifier)) (base slot : Nat) {t : Thread},
    t.pc = base → ItemsActive base slot items t ∨ t.pc = base + itemsCodeSize items
  | [], _, _, _, h => .inr h
  | (_, _) :: _, _, _, _, h => .inl (.inl (.start h))

end

/-- A thread at the start of a branch is inside the block of the branches. -/
theorem branchesActive_of_mem : ∀ (branches : List Regex) (base slot : Nat) {t : Thread},
    t.pc ∈ branchStarts base branches → BranchesActive base slot branches t
  | r :: branches, base, slot, t, h => by
    rcases List.mem_cons.1 h with hPc | hLater
    · exact .inl (r.active_of_pc base slot hPc)
    · exact .inr (branchesActive_of_mem branches _ _ hLater)

/-! ## Steps -/

/-- The thread `u` comes from `t` by a step that touches only the slots from `lo` up to `hi`. -/
structure Thread.Moves (text : Array Char) (lo hi : Nat) (t u : Thread) : Prop where
  forward : t.pos ≤ u.pos
  inText : u.pos ≤ max t.pos text.size
  frame : ∀ slot, slot < lo ∨ hi ≤ slot → u.counters[slot]? = t.counters[slot]?

variable {p : Program} {text : Array Char}

theorem Thread.Moves.mono {lo hi lo' hi' : Nat} {t u : Thread} (h : t.Moves text lo hi u)
    (hLo : lo' ≤ lo) (hHi : hi ≤ hi') : t.Moves text lo' hi' u :=
  ⟨h.forward, h.inText, fun slot hSlot => h.frame slot (by omega)⟩

/-- A step that neither takes a character nor touches a counter. -/
theorem Thread.Moves.of_eq {lo hi : Nat} {t u : Thread} (hPos : u.pos = t.pos)
    (hCounters : u.counters = t.counters) : t.Moves text lo hi u :=
  ⟨hPos.ge, hPos.le.trans (Nat.le_max_left _ _), fun slot _ => by rw [hCounters]⟩

/-- A step that sets the counter of one slot. -/
theorem Thread.Moves.of_set {slot hi : Nat} {counter : Counter} {t u : Thread} (hHi : slot < hi)
    (hPos : u.pos = t.pos) (hCounters : u.counters = t.counters.setIfInBounds slot counter) :
    t.Moves text slot hi u := by
  refine ⟨hPos.ge, hPos.le.trans (Nat.le_max_left _ _), fun i hi => ?_⟩
  rw [hCounters, Array.getElem?_setIfInBounds_ne (by omega)]

/-- What a block promises of a thread in it: a step of the thread stays in the block, where `inside`
holds of it again, or goes to `exit`, and it touches no slots but those from `lo` up to `hi`. -/
def Program.Encloses (p : Program) (text : Array Char) (inside : Thread → Prop)
    (exit lo hi : Nat) : Prop :=
  ∀ t ts, inside t → p.successors text t = .ok ts →
    ∀ u ∈ ts, (inside u ∨ u.pc = exit) ∧ t.Moves text lo hi u

section

variable {base slot : Nat} {q : Quantifier} {r : Regex} {t : Thread} {ts : List Thread}

theorem LoopActive.start_step (hLoop : p.LoopAt base slot q r) {inside : Thread → Prop}
    (hPc : t.pc = base) (hNext : p.successors text t = .ok ts) :
    ∀ u ∈ ts, LoopActive base slot r.codeSize q inside u ∧
      t.Moves text slot (slot + 1 + r.slotCount) u := by
  subst hPc
  simp only [Program.successors, hLoop.start] at hNext
  split at hNext
  · rename_i hSlot
    cases hNext
    intro u hu
    rw [List.mem_singleton.1 hu]
    refine ⟨.head rfl ?_ (q.atHead_zero t.pos), .of_set (by omega) rfl rfl⟩
    exact Array.getElem?_setIfInBounds_self_of_lt hSlot
  · cases hNext

theorem LoopActive.head_step (hLoop : p.LoopAt base slot q r) {inside : Thread → Prop}
    (hEntry : ∀ u : Thread, u.pc = base + 2 → inside u ∨ u.pc = base + 2 + r.codeSize)
    {count : Nat} (hPc : t.pc = base + 1) (hCounter : t.counters[slot]? = some ⟨count, t.pos⟩)
    (hRange : q.AtHead count t.pos) (hNext : p.successors text t = .ok ts) :
    ∀ u ∈ ts, (LoopActive base slot r.codeSize q inside u ∨ u.pc = base + r.codeSize + 3) ∧
      t.Moves text slot (slot + 1 + r.slotCount) u := by
  have hHead := hLoop.head
  rw [← hPc] at hHead
  simp only [Program.successors, hHead, hCounter] at hNext
  cases hNext
  intro u hu
  rcases List.mem_append.1 hu with hIterate | hStop
  · split at hIterate
    · rename_i hMore
      rw [List.mem_singleton.1 hIterate]
      refine ⟨.inl (.body (hEntry _ ?_) hCounter (hRange.inBody hMore)), .of_eq rfl rfl⟩
      exact congrArg (· + 1) hPc
    · cases hIterate
  · split at hStop
    · rw [List.mem_singleton.1 hStop]
      exact ⟨.inr rfl, .of_eq rfl rfl⟩
    · cases hStop

theorem LoopActive.close_step (hLoop : p.LoopAt base slot q r) {inside : Thread → Prop}
    {counter : Counter} (hPc : t.pc = base + 2 + r.codeSize)
    (hCounter : t.counters[slot]? = some counter) (hRange : q.InBody counter t.pos)
    (hNext : p.successors text t = .ok ts) :
    ∀ u ∈ ts, (LoopActive base slot r.codeSize q inside u ∨ u.pc = base + r.codeSize + 3) ∧
      t.Moves text slot (slot + 1 + r.slotCount) u := by
  have hClose := hLoop.close
  rw [← hPc] at hClose
  simp only [Program.successors, hClose, hLoop.head, hCounter] at hNext
  cases hNext
  intro u hu
  rw [List.mem_singleton.1 hu, Program.endSuccessor]
  split
  · exact ⟨.inr rfl, .of_set (by omega) rfl rfl⟩
  · rename_i hGoesOn
    have hSlot := (Array.getElem?_eq_some_iff.1 hCounter).1
    refine ⟨.inl (.head rfl ?_ (hRange.atHead hGoesOn)), .of_set (by omega) rfl rfl⟩
    exact Array.getElem?_setIfInBounds_self_of_lt hSlot

/-- A step of a thread in a loop, given what the body promises. -/
theorem LoopActive.step (hLoop : p.LoopAt base slot q r) {inside : Thread → Prop}
    (hEntry : ∀ u : Thread, u.pc = base + 2 → inside u ∨ u.pc = base + 2 + r.codeSize)
    (hBody : p.Encloses text inside (base + 2 + r.codeSize) (slot + 1)
      (slot + 1 + r.slotCount)) :
    p.Encloses text (LoopActive base slot r.codeSize q inside) (base + r.codeSize + 3) slot
      (slot + 1 + r.slotCount) := by
  intro t ts h hNext u hu
  cases h with
  | start hPc =>
    obtain ⟨hActive, hMoves⟩ := LoopActive.start_step hLoop hPc hNext u hu
    exact ⟨.inl hActive, hMoves⟩
  | head hPc hCounter hRange =>
    exact LoopActive.head_step hLoop hEntry hPc hCounter hRange hNext u hu
  | body hInside hCounter hRange =>
    rcases hInside with hInside | hPc
    · -- The body leaves the counter of the loop alone.
      obtain ⟨hInside', hMoves⟩ := hBody t ts hInside hNext u hu
      have hCounter' := (hMoves.frame slot (.inl (Nat.lt_succ_self slot))).trans hCounter
      exact ⟨.inl (.body hInside' hCounter' (hRange.mono hMoves.forward)),
        hMoves.mono (Nat.le_succ slot) (Nat.le_refl _)⟩
    · exact LoopActive.close_step hLoop hPc hCounter hRange hNext u hu

end

mutual

/-- A step of a thread in the block of a regex stays in the block or leaves it at its end. -/
theorem Regex.active_step : ∀ (r : Regex) (base slot : Nat), p.HasCode base (r.code base slot) →
    p.Encloses text (r.Active base slot) (base + r.codeSize) slot (slot + r.slotCount)
  | .seq items, base, slot, hCode => itemsActive_step items base slot hCode
  | .alt branches, base, slot, hCode => by
    intro t ts h hNext u hu
    have hExit : base + (Regex.alt branches).codeSize = base + 1 + branchesCodeSize branches := by
      rw [Regex.codeSize]
      omega
    rcases h with hPc | hInside
    · subst hPc
      simp only [Program.successors, hCode.head] at hNext
      split at hNext
      · cases hNext
      · cases hNext
        obtain ⟨hStart, hPos, hCounters⟩ := Thread.mem_fork hu
        exact ⟨.inl (.inr (branchesActive_of_mem branches _ _ hStart)), .of_eq hPos hCounters⟩
    · obtain ⟨hInside', hMoves⟩ :=
        branchesActive_step branches (base + 1) slot _ hCode.tail t ts hInside hNext u hu
      rw [hExit]
      exact ⟨hInside'.imp_left .inr, hMoves⟩
  | .group _ body, base, slot, hCode => Regex.active_step body base slot hCode
  | .leaf set, base, slot, hCode => by
    intro t ts hPc hNext u hu
    change t.pc = base at hPc
    subst hPc
    simp only [Program.successors, hCode.head] at hNext
    cases hNext
    split at hu
    · rename_i hAny
      rw [List.mem_singleton.1 hu]
      obtain ⟨c, hChar, -⟩ := (Option.any_eq_true _ _).1 hAny
      have hPos : t.pos < text.size := (Array.getElem?_eq_some_iff.1 hChar).1
      exact ⟨.inr rfl, Nat.le_succ _, hPos.trans_le (Nat.le_max_right _ _), fun _ _ => rfl⟩
    · cases hu

theorem itemsActive_step : ∀ (items : List (Regex × Quantifier)) (base slot : Nat),
    p.HasCode base (itemsCode base slot items) →
    p.Encloses text (ItemsActive base slot items) (base + itemsCodeSize items) slot
      (slot + itemsSlotCount items)
  | [], _, _, _ => fun _ _ h => h.elim
  | (r, q) :: items, base, slot, hCode => by
    obtain ⟨hLoop, hRest⟩ := hCode.items
    have hFirst := LoopActive.step hLoop (fun u hPc => r.active_of_pc _ (slot + 1) hPc)
      (Regex.active_step r _ _ hLoop.body)
    have hItems := itemsActive_step items _ _ hRest
    intro t ts h hNext u hu
    rw [itemsCodeSize, itemsSlotCount]
    rcases h with hInside | hInside
    · obtain ⟨hInside', hMoves⟩ := hFirst t ts hInside hNext u hu
      refine ⟨?_, hMoves.mono (Nat.le_refl _) (by omega)⟩
      rcases hInside' with hInside' | hPc
      · exact .inl (.inl hInside')
      · rcases itemsActive_of_pc items _ (slot + 1 + r.slotCount) hPc with hLater | hEnd
        · exact .inl (.inr hLater)
        · exact .inr (hEnd.trans (by omega))
    · obtain ⟨hInside', hMoves⟩ := hItems t ts hInside hNext u hu
      refine ⟨?_, hMoves.mono (by omega) (by omega)⟩
      rcases hInside' with hInside' | hEnd
      · exact .inl (.inr hInside')
      · exact .inr (hEnd.trans (by omega))

theorem branchesActive_step : ∀ (branches : List Regex) (base slot exit : Nat),
    p.HasCode base (branchesCode base slot exit branches) →
    p.Encloses text (BranchesActive base slot branches) exit slot
      (slot + branchesSlotCount branches)
  | [], _, _, _, _ => fun _ _ h => h.elim
  | r :: branches, base, slot, exit, hCode => by
    obtain ⟨hFirst, hJump, hRest⟩ := hCode.branches
    intro t ts h hNext u hu
    rw [branchesSlotCount]
    rcases h with (hInside | hPc) | hInside
    · obtain ⟨hInside', hMoves⟩ := Regex.active_step r base slot hFirst t ts hInside hNext u hu
      exact ⟨.inl (.inl hInside'), hMoves.mono (Nat.le_refl _) (by omega)⟩
    · rw [← hPc] at hJump
      simp only [Program.successors, hJump] at hNext
      cases hNext
      rw [List.mem_singleton.1 hu]
      exact ⟨.inr rfl, .of_eq rfl rfl⟩
    · obtain ⟨hInside', hMoves⟩ :=
        branchesActive_step branches _ _ exit hRest t ts hInside hNext u hu
      exact ⟨hInside'.imp_left .inr, hMoves.mono (by omega) (by omega)⟩

end

/-! ## No count leaves its word -/

mutual

/-- The quantifiers of all items in a regex, in the order of their loop slots. -/
def Regex.quantifiers : Regex → List Quantifier
  | .seq items => itemsQuantifiers items
  | .alt branches => branchesQuantifiers branches
  | .group _ body => body.quantifiers
  | .leaf _ => []

/-- The quantifiers in the items of a sequence; an item comes before what it repeats. -/
def itemsQuantifiers : List (Regex × Quantifier) → List Quantifier
  | [] => []
  | (r, q) :: items => q :: (r.quantifiers ++ itemsQuantifiers items)

/-- The quantifiers in the branches of an alternation. -/
def branchesQuantifiers : List Regex → List Quantifier
  | [] => []
  | r :: branches => r.quantifiers ++ branchesQuantifiers branches

end

mutual

theorem Regex.quantifiers_length : ∀ r : Regex, r.quantifiers.length = r.slotCount
  | .seq items => itemsQuantifiers_length items
  | .alt branches => branchesQuantifiers_length branches
  | .group _ body => Regex.quantifiers_length body
  | .leaf _ => rfl

theorem itemsQuantifiers_length : ∀ items : List (Regex × Quantifier),
    (itemsQuantifiers items).length = itemsSlotCount items
  | [] => rfl
  | (r, _) :: items => by
    rw [itemsQuantifiers, itemsSlotCount, List.length_cons, List.length_append,
      Regex.quantifiers_length r, itemsQuantifiers_length items]
    omega

theorem branchesQuantifiers_length : ∀ branches : List Regex,
    (branchesQuantifiers branches).length = branchesSlotCount branches
  | [] => rfl
  | r :: branches => by
    rw [branchesQuantifiers, branchesSlotCount, List.length_append, Regex.quantifiers_length r,
      branchesQuantifiers_length branches]

end

section

variable {q q' : Quantifier} {r : Regex} {items : List (Regex × Quantifier)} {branches : List Regex}
  {k : Nat}

/-- The slots of a loop body come after the slot of the loop. -/
theorem itemsQuantifiers_body (h : r.quantifiers[k]? = some q') :
    (itemsQuantifiers ((r, q) :: items))[k + 1]? = some q' := by
  rw [itemsQuantifiers, List.getElem?_cons_succ,
    List.getElem?_append_left (List.getElem?_eq_some_iff.1 h).1]
  exact h

/-- The slots of the later items come after those of the first one. -/
theorem itemsQuantifiers_later (h : (itemsQuantifiers items)[k]? = some q') :
    (itemsQuantifiers ((r, q) :: items))[r.slotCount + k + 1]? = some q' := by
  rw [itemsQuantifiers, List.getElem?_cons_succ, ← r.quantifiers_length,
    List.getElem?_append_right (Nat.le_add_right _ _), Nat.add_sub_cancel_left]
  exact h

theorem branchesQuantifiers_first (h : r.quantifiers[k]? = some q') :
    (branchesQuantifiers (r :: branches))[k]? = some q' := by
  rw [branchesQuantifiers, List.getElem?_append_left (List.getElem?_eq_some_iff.1 h).1]
  exact h

/-- The slots of the later branches come after those of the first one. -/
theorem branchesQuantifiers_later (h : (branchesQuantifiers branches)[k]? = some q') :
    (branchesQuantifiers (r :: branches))[r.slotCount + k]? = some q' := by
  rw [branchesQuantifiers, ← r.quantifiers_length,
    List.getElem?_append_right (Nat.le_add_right _ _), Nat.add_sub_cancel_left]
  exact h

end

/-- The end of an iteration of the loop with slot `i`, whose head is at `head`: the thread has the
counter of the loop there, in range for its quantifier. -/
structure Program.Closes (p : Program) (t : Thread) (i head : Nat) (q : Quantifier)
    (counter : Counter) : Prop where
  head : ∃ exit, p.code[head]? = some (.loopHead i q exit)
  found : t.counters[i]? = some counter
  range : q.InBody counter t.pos

mutual

/-- At the end of an iteration the counter is in range for the quantifier of its loop. -/
theorem Regex.closes_of_loopEnd : ∀ (r : Regex) (base slot : Nat),
    p.HasCode base (r.code base slot) → ∀ {t : Thread} {i head : Nat}, r.Active base slot t →
    p.code[t.pc]? = some (.loopEnd i head) →
    ∃ k q counter, i = slot + k ∧ r.quantifiers[k]? = some q ∧ p.Closes t i head q counter
  | .seq items, base, slot, hCode, _, _, _, h, hEnd =>
    itemsClose_of_loopEnd items base slot hCode h hEnd
  | .alt branches, base, slot, hCode, t, _, _, h, hEnd => by
    rcases h with hPc | hInside
    · rw [hPc, hCode.head] at hEnd
      cases hEnd
    · exact branchesClose_of_loopEnd branches _ slot _ hCode.tail hInside hEnd
  | .group _ body, base, slot, hCode, _, _, _, h, hEnd =>
    Regex.closes_of_loopEnd body base slot hCode h hEnd
  | .leaf _, base, slot, hCode, t, _, _, h, hEnd => by
    change t.pc = base at h
    rw [h, hCode.head] at hEnd
    cases hEnd

theorem itemsClose_of_loopEnd : ∀ (items : List (Regex × Quantifier)) (base slot : Nat),
    p.HasCode base (itemsCode base slot items) → ∀ {t : Thread} {i head : Nat},
    ItemsActive base slot items t → p.code[t.pc]? = some (.loopEnd i head) →
    ∃ k q counter, i = slot + k ∧ (itemsQuantifiers items)[k]? = some q ∧
      p.Closes t i head q counter
  | [], _, _, _, _, _, _, h, _ => h.elim
  | (r, q) :: items, base, slot, hCode, t, i, head, h, hEnd => by
    obtain ⟨hLoop, hRest⟩ := hCode.items
    rcases h with (hPc | ⟨hPc, -, -⟩ | ⟨hInside | hPc, hCounter, hRange⟩) | hInside
    · rw [hPc, hLoop.start] at hEnd
      cases hEnd
    · rw [hPc, hLoop.head] at hEnd
      cases hEnd
    · obtain ⟨k, q', counter, hSlot, hAt, hCloses⟩ :=
        r.closes_of_loopEnd _ _ hLoop.body hInside hEnd
      exact ⟨k + 1, q', counter, by omega, itemsQuantifiers_body hAt, hCloses⟩
    · rw [hPc, hLoop.close] at hEnd
      cases hEnd
      exact ⟨0, q, _, rfl, rfl, ⟨_, hLoop.head⟩, hCounter, hRange⟩
    · obtain ⟨k, q', counter, hSlot, hAt, hCloses⟩ :=
        itemsClose_of_loopEnd items _ _ hRest hInside hEnd
      exact ⟨_, q', counter, by omega, itemsQuantifiers_later hAt, hCloses⟩

theorem branchesClose_of_loopEnd : ∀ (branches : List Regex) (base slot exit : Nat),
    p.HasCode base (branchesCode base slot exit branches) → ∀ {t : Thread} {i head : Nat},
    BranchesActive base slot branches t → p.code[t.pc]? = some (.loopEnd i head) →
    ∃ k q counter, i = slot + k ∧ (branchesQuantifiers branches)[k]? = some q ∧
      p.Closes t i head q counter
  | [], _, _, _, _, _, _, _, h, _ => h.elim
  | r :: branches, base, slot, exit, hCode, t, i, head, h, hEnd => by
    obtain ⟨hFirst, hJump, hRest⟩ := hCode.branches
    rcases h with (hInside | hPc) | hInside
    · obtain ⟨k, q, counter, hSlot, hAt, hCloses⟩ :=
        r.closes_of_loopEnd base slot hFirst hInside hEnd
      exact ⟨k, q, counter, hSlot, branchesQuantifiers_first hAt, hCloses⟩
    · rw [hPc, hJump] at hEnd
      cases hEnd
    · obtain ⟨k, q, counter, hSlot, hAt, hCloses⟩ :=
        branchesClose_of_loopEnd branches _ _ exit hRest hInside hEnd
      exact ⟨_, q, counter, by omega, branchesQuantifiers_later hAt, hCloses⟩

end

namespace Program

/-- The thread is inside the code of the regex, with counters in range, or at its end, and inside
the text. -/
def Within (r : Regex) (text : Array Char) (t : Thread) : Prop :=
  (r.Active 0 0 t ∨ t.pc = r.codeSize) ∧ t.pos ≤ text.size

theorem within_initial (r : Regex) (text : Array Char) : Within r text (.initial r.slotCount) := by
  have hStart := r.active_of_pc 0 0 (t := .initial r.slotCount) rfl
  rw [Nat.zero_add] at hStart
  exact ⟨hStart, Nat.zero_le _⟩

theorem Within.next {r : Regex} {t : Thread} {ts : List Thread} (h : Within r text t)
    (hNext : (compile r).successors text t = .ok ts) : ∀ u ∈ ts, Within r text u := by
  have hStep : (compile r).Encloses text (r.Active 0 0) (0 + r.codeSize) 0 (0 + r.slotCount) :=
    r.active_step 0 0 (hasCode_compile r)
  rw [Nat.zero_add] at hStep
  intro u hu
  obtain ⟨hInside | hPc, hPos⟩ := h
  · obtain ⟨hInside', hMoves⟩ := hStep t ts hInside hNext u hu
    exact ⟨hInside', hMoves.inText.trans (Nat.max_le.2 ⟨hPos, Nat.le_refl _⟩)⟩
  · have hAccept := accept_compile r
    rw [← hPc] at hAccept
    simp only [successors, hAccept] at hNext
    cases hNext
    cases hu

/-- Where an iteration ends, its counter is in range for the quantifier of its slot. -/
theorem Within.closes {r : Regex} {t : Thread} {slot head : Nat} (h : Within r text t)
    (hEnd : (compile r).code[t.pc]? = some (.loopEnd slot head)) :
    ∃ q counter, r.quantifiers[slot]? = some q ∧ (compile r).Closes t slot head q counter := by
  rcases h.1 with hInside | hPc
  · obtain ⟨k, q, counter, hSlot, hAt, hCloses⟩ :=
      r.closes_of_loopEnd 0 0 (hasCode_compile r) hInside hEnd
    rw [Nat.zero_add] at hSlot
    exact ⟨q, counter, hSlot ▸ hAt, hCloses⟩
  · rw [hPc, accept_compile] at hEnd
    cases hEnd

/-- In every state of a search all threads are inside the code of the regex, with counters in range,
or at its end, and inside the text. -/
theorem threads_active (r : Regex) {n : Nat} {s : State}
    (hState : (compile r).stateAfter text n = some s) :
    ∀ t ∈ (compile r).threads s, Within r text t :=
  (threads_induction (within_initial r text) (fun _ _ h hNext => h.next hNext) hState).2

/-- No state of a search is one step before an iteration count leaves its word, if the text is short
enough for the unbounded loops. -/
theorem countOverflows_eq_false (r : Regex)
    (hFits : ∀ q ∈ r.quantifiers, q.max = none →
      max q.min.toNat 1 + text.size < countCapacity) {n : Nat} {s : State}
    (hState : (compile r).stateAfter text n = some s) :
    (compile r).countOverflows s = false := by
  have hWithin := threads_active r hState s.thread List.mem_cons_self
  unfold countOverflows
  split
  · rename_i slot head hEnd
    obtain ⟨q, counter, hAt, hCloses⟩ := hWithin.closes hEnd
    have hCounter : s.counters[slot]? = some counter := hCloses.found
    have hFit := hCloses.range.count_lt hWithin.2 (hFits q (List.mem_of_getElem? hAt))
    rw [hCounter]
    exact decide_eq_false (Nat.not_le_of_lt hFit)
  · rfl

end Program

end BacktrackRegex
