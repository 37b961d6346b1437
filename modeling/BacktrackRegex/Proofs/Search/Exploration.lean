import BacktrackRegex.Proofs.Program.Layout
import BacktrackRegex.Proofs.Search.Expansion
import BacktrackRegex.Proofs.Trace.Outcomes

/-!
# The code of a regex explores its outcomes

A thread that enters the block of a regex becomes one thread for each outcome of the regex, behind
the block and in the order of the outcomes.  Each has taken the choices that the trace of its
outcome records, stands where the outcome ends, and has left the counters of all loops outside the
block as they were.

* `Thread.Arrives` — what a thread that leaves a block has in common with the one that entered it;
* `Regex.explores_outcomes` — the statement for the block of a regex.
-/

set_option autoImplicit false

namespace BacktrackRegex

/-! ## Crossing a block -/

/-- The thread `u` has gone on from `t` to `exit` by these choices, up to the place `stop` of the
text, and no counter outside of the slots from `lo` up to `hi` has changed. -/
structure Thread.Arrives (t : Thread) (exit lo hi : Nat) (choices : List Choice) (stop : Nat)
    (u : Thread) : Prop where
  pc : u.pc = exit
  pos : u.pos = stop
  choices : u.choices = t.choices ++ choices
  size : u.counters.size = t.counters.size
  frame : ∀ slot, slot < lo ∨ hi ≤ slot → u.counters[slot]? = t.counters[slot]?

namespace Thread.Arrives

variable {t u v : Thread} {exit exit' lo hi lo' hi' stop stop' : Nat} {cs cs' : List Choice}

theorem goto (t : Thread) (exit lo hi : Nat) : t.Arrives exit lo hi [] t.pos (t.goto exit) :=
  ⟨rfl, rfl, (List.append_nil _).symm, rfl, fun _ _ => rfl⟩

theorem choose (t : Thread) (exit lo hi : Nat) (choice : Choice) :
    t.Arrives exit lo hi [choice] t.pos ((t.choose choice).goto exit) :=
  ⟨rfl, rfl, rfl, rfl, fun _ _ => rfl⟩

theorem setCounter (t : Thread) {slot : Nat} (hHi : slot < hi) (counter : Counter) :
    t.Arrives t.pc slot hi [] t.pos (t.setCounter slot counter) := by
  refine ⟨rfl, rfl, (List.append_nil _).symm, Array.size_setIfInBounds, ?_⟩
  intro i hi
  exact Array.getElem?_setIfInBounds_ne (by omega)

theorem trans (h : t.Arrives exit lo hi cs stop u) (h' : u.Arrives exit' lo hi cs' stop' v) :
    t.Arrives exit' lo hi (cs ++ cs') stop' v where
  pc := h'.pc
  pos := h'.pos
  choices := by rw [h'.choices, h.choices, List.append_assoc]
  size := h'.size.trans h.size
  frame slot hSlot := (h'.frame slot hSlot).trans (h.frame slot hSlot)

theorem congr (h : t.Arrives exit lo hi cs stop u) (hChoices : cs = cs') (hStop : stop = stop') :
    t.Arrives exit lo hi cs' stop' u :=
  hChoices ▸ hStop ▸ h

/-- More slots may have changed. -/
theorem mono (h : t.Arrives exit lo hi cs stop u) (hLo : lo' ≤ lo) (hHi : hi ≤ hi') :
    t.Arrives exit lo' hi' cs stop u :=
  ⟨h.pc, h.pos, h.choices, h.size, fun slot hSlot => h.frame slot (by omega)⟩

end Thread.Arrives

namespace Program

/-- The thread `t` becomes one thread for each of the outcomes, at `exit`, with the choices of the
outcome taken, and with no counter changed outside of the slots from `lo` up to `hi`. -/
def Explores {α : Type} (p : Program) (text : Array Char) (exit lo hi : Nat)
    (choices : α → List Choice) (os : List (Outcome α)) (t : Thread) : Prop :=
  p.Becomes text (fun o u => t.Arrives exit lo hi (choices o.value) o.stop u) os [t]

variable {p : Program} {text : Array Char} {base slot : Nat}

/-! ## Single instructions -/

namespace Becomes

variable {α : Type} {R : α → Thread → Prop} {as : List α} {t : Thread}

theorem of_code {instruction : Instruction} {ts : List Thread}
    (hCode : p.code[t.pc]? = some instruction) (hAccept : instruction ≠ .accept)
    (hNext : p.successors text t = .ok ts) (h : p.Becomes text R as ts) :
    p.Becomes text R as [t] := by
  refine h.follow (fun hAccepts => hAccept ?_) hNext
  rw [Accepts, hCode] at hAccepts
  exact Option.some.inj hAccepts

theorem char {set : CharSet} (hCode : p.code[t.pc]? = some (.char set))
    (h : p.Becomes text R as (if text[t.pos]?.any set.accepts then [t.advance] else [])) :
    p.Becomes text R as [t] :=
  h.of_code hCode (by simp) (by simp [successors, hCode])

theorem fork {starts : Array Nat} (hCode : p.code[t.pc]? = some (.fork starts))
    (hStarts : starts.size ≠ 0) (h : p.Becomes text R as (t.fork 0 starts.toList)) :
    p.Becomes text R as [t] :=
  h.of_code hCode (by simp) (by simp [successors, hCode, hStarts])

theorem jump {target : Nat} (hCode : p.code[t.pc]? = some (.jump target))
    (h : p.Becomes text R as [t.goto target]) : p.Becomes text R as [t] :=
  h.of_code hCode (by simp) (by simp [successors, hCode])

theorem loopStart (hCode : p.code[t.pc]? = some (.loopStart slot)) (hSlot : slot < t.counters.size)
    (h : p.Becomes text R as [(t.setCounter slot ⟨0, t.pos⟩).goto (t.pc + 1)]) :
    p.Becomes text R as [t] :=
  h.of_code hCode (by simp) (by simp [successors, hCode, hSlot])

theorem loopHead {q : Quantifier} {exit : Nat} {counter : Counter}
    (hCode : p.code[t.pc]? = some (.loopHead slot q exit))
    (hCounter : t.counters[slot]? = some counter)
    (h : p.Becomes text R as (headSuccessors q exit counter.count t)) : p.Becomes text R as [t] :=
  h.of_code hCode (by simp) (by simp [successors, hCode, hCounter])

theorem loopEnd {q : Quantifier} {slot' head exit : Nat} {counter : Counter}
    (hCode : p.code[t.pc]? = some (.loopEnd slot head))
    (hHead : p.code[head]? = some (.loopHead slot' q exit))
    (hCounter : t.counters[slot]? = some counter)
    (h : p.Becomes text R as [endSuccessor q exit slot head counter t]) :
    p.Becomes text R as [t] :=
  h.of_code hCode (by simp) (by simp [successors, hCode, hHead, hCounter])

end Becomes

/-! ## Loops -/

/-- A thread at the head of a loop with `count` iterations done becomes the threads that leave the
loop after the iterations that are still to come. -/
theorem explores_iterations {q : Quantifier} {r : Regex} {body : Outcomes text.size Trace}
    (hLoop : p.LoopAt base slot q r)
    (hBody : ∀ t : Thread, t.pc = base + 2 → slot + 1 + r.slotCount ≤ t.counters.size →
      p.Explores text (base + 2 + r.codeSize) (slot + 1) (slot + 1 + r.slotCount) Trace.choices
        (body.run t.pos) t)
    {count pos : Nat} {t : Thread} (hPc : t.pc = base + 1) (hPos : t.pos = pos)
    (hCounter : t.counters[slot]? = some ⟨count, pos⟩)
    (hSlots : slot + 1 + r.slotCount ≤ t.counters.size) :
    p.Explores text (base + r.codeSize + 3) slot (slot + 1 + r.slotCount)
      (fun ts => iterationsChoices ts ++ [.stop]) (body.iterations q count pos) t := by
  fun_induction Outcomes.iterations body q count pos generalizing t with
  | case1 count pos ih =>
    subst hPos
    have hHead : p.code[t.pc]? = some (.loopHead slot q (base + r.codeSize + 3)) := by
      rw [hPc]
      exact hLoop.head
    refine Becomes.loopHead hHead hCounter (Becomes.append ?_ ?_)
    · -- One more iteration: the body, then its end, then the exit or the head again.
      by_cases hMore : q.allowsMore count
      · rw [if_pos hMore, if_pos hMore]
        have hEnter := Thread.Arrives.choose t (t.pc + 1) slot (slot + 1 + r.slotCount) .iterate
        refine (hBody _ (by rw [hEnter.pc, hPc]) (by rwa [hEnter.size])).bind ?_
        intro o hMem u hBodyEnd
        have hIteration := hEnter.trans (hBodyEnd.mono (Nat.le_succ slot) (Nat.le_refl _))
        have hClose : p.code[u.pc]? = some (.loopEnd slot (base + 1)) := by
          rw [hBodyEnd.pc]
          exact hLoop.close
        have hCounter' : u.counters[slot]? = some ⟨count, t.pos⟩ := by
          rw [hBodyEnd.frame slot (.inl (Nat.lt_succ_self slot))]
          exact hCounter
        have hSlot : slot < u.counters.size := by
          rw [hIteration.size]
          omega
        have hCount := hIteration.trans
          (Thread.Arrives.setCounter u (by omega) ⟨count + 1, u.pos⟩)
        refine Becomes.loopEnd hClose hLoop.head hCounter' ?_
        by_cases hLast : o.stop = t.pos ∧ q.allowsStop (count + 1)
        · rw [if_pos hLast, endSuccessor, if_pos (by rwa [hBodyEnd.pos])]
          have hLeave := hCount.trans
            (Thread.Arrives.choose _ (base + r.codeSize + 3) _ _ .stop)
          exact .here (hLeave.congr (by simp [iterationsChoices]) hBodyEnd.pos)
        · rw [if_neg hLast, endSuccessor, if_neg (by rwa [hBodyEnd.pos])]
          have hBack := hCount.trans (Thread.Arrives.goto _ (base + 1) _ _)
          have hSet : (u.setCounter slot ⟨count + 1, u.pos⟩).counters[slot]? =
              some ⟨count + 1, o.stop⟩ := by
            rw [← hBodyEnd.pos]
            exact Array.getElem?_setIfInBounds_self_of_lt hSlot
          have hNext := ih o hMem hLast hBack.pc (hBack.pos.trans hBodyEnd.pos) hSet
            (by rwa [hBack.size])
          refine hNext.map fun later _ v hLater => ?_
          exact (hBack.trans hLater).congr (by simp [iterationsChoices, Outcome.map]) rfl
      · rw [if_neg hMore, if_neg hMore]
        exact .nil
    · by_cases hStop : q.allowsStop count
      · rw [if_pos hStop, if_pos hStop]
        exact .here (Thread.Arrives.choose t _ _ _ _)
      · rw [if_neg hStop, if_neg hStop]
        exact .nil

end Program

/-! ## Blocks -/

variable {p : Program} {text : Array Char}

theorem branchStarts_length (base : Nat) (branches : List Regex) :
    (branchStarts base branches).length = branches.length := by
  induction branches generalizing base with
  | nil => rfl
  | cons r branches ih => exact congrArg (· + 1) (ih _)

mutual

/-- A thread that enters the block of a regex becomes one thread behind it for each outcome of the
regex, the best one first. -/
theorem Regex.explores_outcomes : ∀ (r : Regex), r.Branched → ∀ (base slot : Nat),
    p.HasCode base (r.code base slot) → ∀ t : Thread, t.pc = base →
    slot + r.slotCount ≤ t.counters.size →
    p.Explores text (base + r.codeSize) slot (slot + r.slotCount) Trace.choices
      ((r.outcomes text).run t.pos) t
  | .seq items, hBranched, base, slot, hCode, t, hPc, hSlots => by
    have hItems := itemsOutcomes_explored items hBranched base slot hCode t hPc hSlots
    exact hItems.map fun o _ u hArrives => hArrives
  | .alt branches, hBranched, base, slot, hCode, t, hPc, hSlots => by
    subst hPc
    have hStarts : (branchStarts (t.pc + 1) branches).toArray.size ≠ 0 := by
      rw [List.size_toArray, branchStarts_length]
      exact mt List.length_eq_zero_iff.1 hBranched.1
    have hBranches := branchesOutcomes_explored branches hBranched.2 (t.pc + 1) slot _ hCode.tail 0
      t hSlots
    have hExit : t.pc + 1 + branchesCodeSize branches = t.pc + (Regex.alt branches).codeSize := by
      rw [Regex.codeSize]
      omega
    rw [hExit] at hBranches
    exact Program.Becomes.fork hCode.head hStarts hBranches
  | .group id body, hBranched, base, slot, hCode, t, hPc, hSlots => by
    have hBody := Regex.explores_outcomes body hBranched base slot hCode t hPc hSlots
    exact hBody.map fun o _ u hArrives => hArrives
  | .leaf set, _, base, slot, hCode, t, hPc, _ => by
    subst hPc
    refine Program.Becomes.char hCode.head ?_
    rw [Regex.outcomes, Outcomes.char]
    by_cases hAccepts : text[t.pos]?.any set.accepts
    · simp only [if_pos hAccepts]
      exact .here ⟨rfl, rfl, (List.append_nil _).symm, rfl, fun _ _ => rfl⟩
    · simp only [if_neg hAccepts]
      exact .nil

/-- The same for the items of a sequence. -/
theorem itemsOutcomes_explored : ∀ (items : List (Regex × Quantifier)), ItemsBranched items →
    ∀ (base slot : Nat), p.HasCode base (itemsCode base slot items) → ∀ t : Thread, t.pc = base →
    slot + itemsSlotCount items ≤ t.counters.size →
    p.Explores text (base + itemsCodeSize items) slot (slot + itemsSlotCount items)
      repetitionsChoices ((itemsOutcomes text items).run t.pos) t
  | [], _, base, slot, _, t, hPc, _ => by
    subst hPc
    exact .here (Thread.Arrives.goto t t.pc _ _)
  | (r, q) :: items, hBranched, base, slot, hCode, t, hPc, hSlots => by
    subst hPc
    obtain ⟨hLoop, hRest⟩ := hCode.items
    rw [itemsSlotCount] at hSlots
    -- The loop starts with a fresh counter, which its head then finds.
    have hStart := (Thread.Arrives.setCounter t (Nat.lt_succ_self slot) ⟨0, t.pos⟩).trans
      (Thread.Arrives.goto _ (t.pc + 1) _ _)
    have hCounter : ((t.setCounter slot ⟨0, t.pos⟩).goto (t.pc + 1)).counters[slot]? =
        some ⟨0, t.pos⟩ :=
      Array.getElem?_setIfInBounds_self_of_lt (by omega)
    have hIterations := Program.explores_iterations hLoop
      (fun u hPc hSlots => Regex.explores_outcomes r hBranched.1 _ _ hLoop.body u hPc hSlots)
      hStart.pc hStart.pos hCounter (by rw [hStart.size]; omega)
    refine Program.Becomes.loopStart hLoop.start (by omega) ?_
    have hItem : p.Becomes text (fun o u => t.Arrives (t.pc + r.codeSize + 3) slot
        (slot + 1 + r.slotCount) (iterationsChoices o.value.iterations ++ [.stop]) o.stop u)
        ((Outcomes.repeated q (r.outcomes text)).run t.pos)
        [(t.setCounter slot ⟨0, t.pos⟩).goto (t.pc + 1)] :=
      hIterations.map fun o _ u hArrives =>
        (hStart.mono (Nat.le_refl _) (by omega)).trans hArrives
    refine hItem.bind fun o _ u hArrives => ?_
    have hItems := itemsOutcomes_explored items hBranched.2 _ _ hRest u hArrives.pc
      (by rw [hArrives.size]; omega)
    rw [hArrives.pos] at hItems
    refine hItems.map fun later _ v hLater => ?_
    rw [itemsCodeSize, itemsSlotCount]
    have hBoth := (hArrives.mono (Nat.le_refl slot)
      (Nat.le_add_right _ (itemsSlotCount items))).trans (hLater.mono (by omega) (Nat.le_refl _))
    refine ⟨hBoth.pc.trans (by omega), hBoth.pos, ?_, hBoth.size, fun i hi => hBoth.frame i ?_⟩
    · rw [hBoth.choices]
      simp only [Outcome.map, repetitionsChoices, List.append_assoc, List.singleton_append]
    · omega

/-- The same for branches, one thread for each of which is about to start it. -/
theorem branchesOutcomes_explored : ∀ (branches : List Regex), BranchesBranched branches →
    ∀ (base slot exit : Nat), p.HasCode base (branchesCode base slot exit branches) →
    ∀ (branch : Nat) (t : Thread), slot + branchesSlotCount branches ≤ t.counters.size →
    p.Becomes text
      (fun o u => t.Arrives exit slot (slot + branchesSlotCount branches) o.value.choices o.stop u)
      ((branchesOutcomes text branch branches).run t.pos)
      (t.fork branch (branchStarts base branches))
  | [], _, _, _, _, _, _, _, _ => .nil
  | r :: branches, hBranched, base, slot, exit, hCode, branch, t, hSlots => by
    obtain ⟨hFirst, hJump, hRest⟩ := hCode.branches
    rw [branchesSlotCount] at hSlots ⊢
    refine Program.Becomes.append
      (?_ : p.Becomes text _ _ [(t.choose (.branch branch)).goto base]) ?_
    · have hEnter := Thread.Arrives.choose t base slot (slot + r.slotCount) (.branch branch)
      have hBody := Regex.explores_outcomes r hBranched.1 base slot hFirst _ hEnter.pc
        (by rw [hEnter.size]; omega)
      rw [List.map_eq_flatMap]
      refine hBody.bind fun o _ u hArrives => ?_
      have hAt : p.code[u.pc]? = some (.jump exit) := by
        rw [hArrives.pc]
        exact hJump
      have hLeave := (hEnter.trans hArrives).trans (Thread.Arrives.goto u exit _ _)
      refine Program.Becomes.jump hAt (.here ?_)
      exact (hLeave.mono (Nat.le_refl slot) (by omega)).congr (List.append_nil _) hArrives.pos
    · have hLater := branchesOutcomes_explored branches hBranched.2 _ _ exit hRest (branch + 1) t
        (by omega)
      exact hLater.imp fun o _ u hArrives => hArrives.mono (by omega) (by omega)

end

end BacktrackRegex
