import BacktrackRegex.Proofs.Trace.Outcomes

/-!
# Outcomes tile the text

Every outcome is the record of a match: its trace is shaped like the regex and its spans follow one
another from the start of the match to its end.

* `Regex.outcomes_tiled` — for the outcomes of a regex at any place;
* `Regex.Tiled.fits` — tiled traces have the shape of the regex;
* `Regex.Tiled.within`, `Regex.Tiled.endsFit` — a tiled trace that ends inside the text has all its
  spans there, and one that ends at an offset has offsets all through;
* `Regex.tiled_of_mem_traces` — the traces of a regex from the start of a text.
-/

set_option autoImplicit false

namespace BacktrackRegex

/-! ## Tiled traces fit -/

theorem TilesTo.forall_mem {tiled : Nat → Trace → Prop} {P : Trace → Prop} {stop : Nat}
    (h : ∀ pos t, tiled pos t → P t) {pos : Nat} {ts : List Trace}
    (hTiles : TilesTo tiled stop pos ts) : ∀ t ∈ ts, P t := by
  induction ts generalizing pos with
  | nil => exact fun t ht => absurd ht List.not_mem_nil
  | cons t ts ih =>
    intro u hu
    rcases List.mem_cons.1 hu with rfl | hu
    · exact h pos u hTiles.1
    · exact ih hTiles.2 u hu

mutual

/-- A trace whose spans tile the text is shaped like the regex. -/
theorem Regex.Tiled.fits : ∀ (r : Regex) (pos : Nat) (t : Trace), r.Tiled pos t → r.Fits t
  | .seq items, _, .seq _ repetitions, h => itemsTiled_fit items _ _ repetitions h.2
  | .alt branches, pos, .alt branch t, h => branchTiled_fits branches branch pos t h
  | .group _ body, pos, .group _ t, h => Regex.Tiled.fits body pos t h.2
  | .leaf _, _, .char _, _ => trivial

theorem itemsTiled_fit : ∀ (items : List (Regex × Quantifier)) (stop pos : Nat)
    (repetitions : List (Repetition Trace)), ItemsTiled items stop pos repetitions →
    ItemsFit items repetitions
  | [], _, _, [], _ => trivial
  | (r, _) :: items, stop, _, _ :: repetitions, h =>
    ⟨h.2.1.forall_mem (Regex.Tiled.fits r), itemsTiled_fit items stop _ repetitions h.2.2⟩

theorem branchTiled_fits : ∀ (branches : List Regex) (branch pos : Nat) (t : Trace),
    BranchTiled branches branch pos t → BranchFits branches branch t
  | r :: _, 0, pos, t, h => Regex.Tiled.fits r pos t h
  | _ :: branches, branch + 1, pos, t, h => branchTiled_fits branches branch pos t h

end

/-! ## Tiled traces stay inside their span -/

mutual

theorem Regex.Tiled.start_eq : ∀ (r : Regex) (pos : Nat) (t : Trace), r.Tiled pos t →
    t.span.start = pos
  | .seq _, _, .seq _ _, h => h.1
  | .alt branches, pos, .alt branch t, h => branchTiled_start_eq branches branch pos t h
  | .group _ body, pos, .group _ t, h => by
    obtain ⟨rfl, hBody⟩ := h
    exact Regex.Tiled.start_eq body pos t hBody
  | .leaf _, _, .char _, h => congrArg Span.start h

theorem branchTiled_start_eq : ∀ (branches : List Regex) (branch pos : Nat) (t : Trace),
    BranchTiled branches branch pos t → t.span.start = pos
  | r :: _, 0, pos, t, h => Regex.Tiled.start_eq r pos t h
  | _ :: branches, branch + 1, pos, t, h => branchTiled_start_eq branches branch pos t h

end

theorem TilesTo.le {tiled : Nat → Trace → Prop}
    (hStart : ∀ pos t, tiled pos t → t.span.start = pos) {stop pos : Nat} {ts : List Trace}
    (h : TilesTo tiled stop pos ts) : pos ≤ stop := by
  induction ts generalizing pos with
  | nil => exact Nat.le_of_eq h
  | cons t ts ih =>
    have hRest := ih h.2
    rw [Span.stop, hStart pos t h.1] at hRest
    omega

theorem itemsTiled_le {items : List (Regex × Quantifier)} {stop pos : Nat}
    {repetitions : List (Repetition Trace)} (h : ItemsTiled items stop pos repetitions) :
    pos ≤ stop := by
  induction repetitions generalizing items pos with
  | nil =>
    cases items with
    | nil => exact Nat.le_of_eq h
    | cons _ _ => exact h.elim
  | cons repetition repetitions ih =>
    cases items with
    | nil => exact h.elim
    | cons item items =>
      obtain ⟨hStart, -, hRest⟩ := h
      have hLe := ih hRest
      rw [Span.stop, hStart] at hLe
      omega

theorem TilesTo.within {tiled : Nat → Trace → Prop} {size : Nat}
    (hStart : ∀ pos t, tiled pos t → t.span.start = pos)
    (hWithin : ∀ pos t, tiled pos t → t.span.stop ≤ size → t.Within size) {stop pos : Nat}
    {ts : List Trace} (h : TilesTo tiled stop pos ts) (hStop : stop ≤ size) :
    IterationsWithin size ts := by
  induction ts generalizing pos with
  | nil => trivial
  | cons t ts ih => exact ⟨hWithin pos t h.1 (Nat.le_trans (h.2.le hStart) hStop), ih h.2⟩

mutual

/-- If the span of a tiled trace ends inside the text, no span of the trace leaves the text. -/
theorem Regex.Tiled.within {size : Nat} : ∀ (r : Regex) (pos : Nat) (t : Trace), r.Tiled pos t →
    t.span.stop ≤ size → t.Within size
  | .seq items, _, .seq _ repetitions, h, hStop =>
    ⟨hStop, itemsTiled_within items _ _ repetitions h.2 hStop⟩
  | .alt branches, pos, .alt branch t, h, hStop =>
    branchTiled_within branches branch pos t h hStop
  | .group _ body, pos, .group _ t, h, hStop => by
    obtain ⟨rfl, hBody⟩ := h
    exact ⟨hStop, Regex.Tiled.within body pos t hBody hStop⟩
  | .leaf _, _, .char _, _, hStop => hStop

theorem itemsTiled_within {size : Nat} : ∀ (items : List (Regex × Quantifier)) (stop pos : Nat)
    (repetitions : List (Repetition Trace)), ItemsTiled items stop pos repetitions →
    stop ≤ size → RepetitionsWithin size repetitions
  | [], _, _, [], _, _ => trivial
  | (r, _) :: items, stop, _, ⟨_, _⟩ :: repetitions, ⟨_, hTiles, hItems⟩, hStop =>
    have hEnd := Nat.le_trans (itemsTiled_le hItems) hStop
    ⟨hEnd, hTiles.within (Regex.Tiled.start_eq r) (Regex.Tiled.within r) hEnd,
      itemsTiled_within items stop _ repetitions hItems hStop⟩

theorem branchTiled_within {size : Nat} : ∀ (branches : List Regex) (branch pos : Nat) (t : Trace),
    BranchTiled branches branch pos t → t.span.stop ≤ size → t.Within size
  | r :: _, 0, pos, t, h, hStop => Regex.Tiled.within r pos t h hStop
  | _ :: branches, branch + 1, pos, t, h, hStop => branchTiled_within branches branch pos t h hStop

end

/-- A tiled trace that ends at an offset has all its parts end at offsets. -/
theorem Regex.Tiled.endsFit {r : Regex} {pos : Nat} {t : Trace} (h : r.Tiled pos t)
    (hStop : t.span.stop < offsetCapacity) : t.EndsFit :=
  (Regex.Tiled.within r pos t h (Nat.le_refl _)).endsFit hStop

/-! ## Outcomes are tiled -/

/-- The outcome is the record of a match from `pos` to where it ends. -/
structure Outcome.Records (tiled : Nat → Trace → Prop) (pos : Nat) (o : Outcome Trace) : Prop where
  tiled : tiled pos o.value
  start : o.value.span.start = pos
  stop : o.value.span.stop = o.stop

/-- A span from a place to a later one ends there. -/
theorem Span.stop_sub {pos stop : Nat} (h : pos ≤ stop) : (Span.mk pos (stop - pos)).stop = stop :=
  Nat.add_sub_cancel' h

theorem Outcomes.iterations_tile {size : Nat} {body : Outcomes size Trace}
    {tiled : Nat → Trace → Prop} (hBody : ∀ pos, ∀ o ∈ body.run pos, o.Records tiled pos)
    {q : Quantifier} {count pos : Nat} {o : Outcome (List Trace)}
    (h : o ∈ body.iterations q count pos) : TilesTo tiled o.stop pos o.value := by
  fun_induction iterations body q count pos generalizing o with
  | case1 count pos ih =>
    rcases List.mem_append.1 h with hMore | hStop
    · split at hMore
      · obtain ⟨first, hFirst, hRest⟩ := List.mem_flatMap.1 hMore
        have hRecords := hBody pos first hFirst
        split at hRest
        · rw [List.mem_singleton] at hRest
          rw [hRest]
          exact ⟨hRecords.tiled, hRecords.stop⟩
        · rename_i hGoesOn
          obtain ⟨later, hLater, rfl⟩ := List.mem_map.1 hRest
          refine ⟨hRecords.tiled, ?_⟩
          rw [hRecords.stop]
          exact ih first hFirst hGoesOn hLater
      · cases hMore
    · split at hStop
      · rw [List.mem_singleton] at hStop
        rw [hStop]
        rfl
      · cases hStop

mutual

/-- The outcomes of a regex are records of matches of the regex. -/
theorem Regex.outcomes_tiled (text : Array Char) : ∀ (r : Regex) (pos : Nat),
    ∀ o ∈ (r.outcomes text).run pos, o.Records r.Tiled pos
  | .seq items, pos, o, h => by
    obtain ⟨o, hMem, rfl⟩ := List.mem_map.1 h
    have hStop := Span.stop_sub ((itemsOutcomes text items).inText hMem).1
    refine ⟨⟨rfl, ?_⟩, rfl, hStop⟩
    rw [hStop]
    exact itemsOutcomes_tiled text items pos o hMem
  | .alt branches, pos, o, h => by
    obtain ⟨branch, t, hValue, hRecords⟩ := branchesOutcomes_tiled text branches 0 pos o h
    rw [Nat.zero_add] at hValue
    refine ⟨?_, ?_, ?_⟩
    · rw [hValue]
      exact hRecords.tiled
    · rw [hValue]
      exact hRecords.start
    · rw [hValue]
      exact hRecords.stop
  | .group _ body, pos, o, h => by
    obtain ⟨o, hMem, rfl⟩ := List.mem_map.1 h
    have hRecords := Regex.outcomes_tiled text body pos o hMem
    exact ⟨⟨rfl, hRecords.tiled⟩, hRecords.start, hRecords.stop⟩
  | .leaf set, pos, o, h => by
    change o ∈ (if text[pos]?.any set.accepts then _ else _) at h
    split at h
    · rw [List.mem_singleton] at h
      rw [h]
      exact ⟨rfl, rfl, rfl⟩
    · cases h

theorem itemsOutcomes_tiled (text : Array Char) : ∀ (items : List (Regex × Quantifier)) (pos : Nat),
    ∀ o ∈ (itemsOutcomes text items).run pos, ItemsTiled items o.stop pos o.value
  | [], pos, o, h => by
    rw [itemsOutcomes] at h
    rw [List.mem_singleton.1 h]
    rfl
  | (r, q) :: items, pos, o, h => by
    obtain ⟨first, hFirst, hRest⟩ := List.mem_flatMap.1 h
    obtain ⟨later, hLater, rfl⟩ := List.mem_map.1 hRest
    obtain ⟨its, hIts, rfl⟩ := List.mem_map.1 hFirst
    have hStop := Span.stop_sub (Outcomes.iterations_inText hIts).1
    have hTiles := Outcomes.iterations_tile (Regex.outcomes_tiled text r) hIts
    refine ⟨rfl, ?_, ?_⟩
    · rw [hStop]
      exact hTiles
    · rw [hStop]
      exact itemsOutcomes_tiled text items _ later hLater

theorem branchesOutcomes_tiled (text : Array Char) : ∀ (branches : List Regex) (branch pos : Nat),
    ∀ o ∈ (branchesOutcomes text branch branches).run pos, ∃ i t, o.value = .alt (branch + i) t ∧
      (Outcome.mk t o.stop).Records (BranchTiled branches i) pos
  | [], _, _, o, h => by cases h
  | r :: branches, branch, pos, o, h => by
    rcases List.mem_append.1 h with hFirst | hLater
    · obtain ⟨o, hMem, rfl⟩ := List.mem_map.1 hFirst
      have hRecords := Regex.outcomes_tiled text r pos o hMem
      exact ⟨0, o.value, rfl, hRecords.tiled, hRecords.start, hRecords.stop⟩
    · obtain ⟨i, t, hValue, hRecords⟩ :=
        branchesOutcomes_tiled text branches (branch + 1) pos o hLater
      refine ⟨i + 1, t, ?_, hRecords.tiled, hRecords.start, hRecords.stop⟩
      rw [hValue, Nat.add_assoc, Nat.add_comm 1 i]

end

/-- The traces of a regex tile a part of the text that begins at its start. -/
theorem Regex.tiled_of_mem_traces {text : Array Char} {r : Regex} {t : Trace}
    (h : t ∈ r.traces text) : r.Tiled 0 t ∧ t.span.start = 0 ∧ t.span.stop ≤ text.size := by
  obtain ⟨o, hMem, rfl⟩ := List.mem_map.1 h
  have hRecords := Regex.outcomes_tiled text r 0 o hMem
  have hText := ((r.outcomes text).inText hMem).2
  refine ⟨hRecords.tiled, hRecords.start, ?_⟩
  rw [hRecords.stop]
  omega

/-- The traces of a regex have its shape and lie inside the text. -/
theorem Regex.fits_within_of_mem_traces {text : Array Char} {r : Regex} {t : Trace}
    (h : t ∈ r.traces text) : r.Fits t ∧ t.Within text.size := by
  obtain ⟨hTiled, -, hStop⟩ := Regex.tiled_of_mem_traces h
  exact ⟨Regex.Tiled.fits r 0 t hTiled, Regex.Tiled.within r 0 t hTiled hStop⟩

end BacktrackRegex
