import BacktrackRegex.Proofs.Trace.Shape
import BacktrackRegex.Trace.Replay

/-!
# Replaying gives back the trace

The choices of a trace determine it: read off by the replayer of its regex from the place where the
trace starts, they give the trace back, and whatever choices follow them are left over.

* `Regex.replayer_choices` — for every trace whose spans tile the text and end at offsets.
-/

set_option autoImplicit false

namespace BacktrackRegex

/-- A span lies between its ends. -/
theorem Span.between_start_stop (s : Span) : Span.between s.start s.stop = .ok s := by
  have hLe : s.start ≤ s.start + s.len := Nat.le_add_right _ _
  simp only [Span.between, Span.stop, if_pos hLe, Nat.add_sub_cancel_left]

namespace Replayer

/-- The reader gives back every tiled trace whose parts end at offsets, from its choices. -/
def ReadsChoices (body : Replayer Trace) (tiled : Nat → Trace → Prop) : Prop :=
  ∀ pos t, tiled pos t → t.EndsFit → ∀ rest, body.run pos (t.choices ++ rest) = .ok (t, rest)

variable {body : Replayer Trace} {tiled : Nat → Trace → Prop}

theorem iterations_choices (hBody : body.ReadsChoices tiled) {stop : Nat} (ts : List Trace) :
    ∀ pos (done : List Trace) (rest : List Choice), TilesTo tiled stop pos ts →
      IterationsEndFit ts → body.iterations pos done (iterationsChoices ts ++ .stop :: rest) =
        .ok (done.reverse ++ ts, stop, rest) := by
  induction ts with
  | nil =>
    rintro pos done rest rfl -
    rw [iterationsChoices, List.nil_append, iterations, List.append_nil]
  | cons t ts ih =>
    rintro pos done rest ⟨hTiled, hLater⟩ ⟨hStop, hEnds, hLaterEnds⟩
    have hRun := hBody pos t hTiled hEnds (iterationsChoices ts ++ .stop :: rest)
    rw [iterationsChoices, List.cons_append, List.append_assoc, iterations]
    split
    · rename_i f hError
      rw [hRun] at hError
      cases hError
    · rename_i t' rest' hOk
      rw [hRun] at hOk
      cases hOk
      simp only [Span.checkedStop_of_lt hStop]
      rw [ih _ _ _ hLater hLaterEnds, List.reverse_cons, List.append_assoc, List.singleton_append]

theorem repeatedAt_choices (hBody : body.ReadsChoices tiled) (repetition : Repetition Trace)
    (hTiles : TilesTo tiled repetition.span.stop repetition.span.start repetition.iterations)
    (hEnds : IterationsEndFit repetition.iterations) (rest : List Choice) :
    body.repeatedAt repetition.span.start
      (iterationsChoices repetition.iterations ++ .stop :: rest) = .ok (repetition, rest) := by
  rw [repeatedAt, iterations_choices hBody _ _ _ _ hTiles hEnds]
  simp only [Span.between_start_stop, List.reverse_nil, List.nil_append]

end Replayer

mutual

/-- The choices of a trace are read as that trace, and nothing beyond them is read. -/
theorem Regex.replayer_choices : ∀ r : Regex, r.replayer.ReadsChoices r.Tiled
  | .seq items, pos, .seq span repetitions, ⟨hStart, hItems⟩, hEnds, rest => by
    subst hStart
    obtain ⟨hRun, hStop⟩ :=
      itemsReplayer_choices items span.stop span.start repetitions hItems hEnds rest
    rw [Trace.choices, Regex.replayer]
    simp only [Replayer.sequence, Replayer.sequenceAt, hRun, hStop, Span.between_start_stop]
  | .alt branches, pos, .alt branch t, h, hEnds, rest => by
    obtain ⟨reader, hReader, hReads⟩ := branchReplayers_choices branches branch pos t h
    rw [Trace.choices, Regex.replayer, List.cons_append]
    simp only [Replayer.choice, Replayer.choiceAt, hReader, hReads hEnds rest]
  | .group id body, pos, .group span t, h, hEnds, rest => by
    obtain ⟨rfl, hBody⟩ := h
    rw [Trace.choices, Regex.replayer]
    simp only [Replayer.group, Replayer.groupAt, Regex.replayer_choices body pos t hBody hEnds rest]
  | .leaf set, pos, .char span, h, _, rest => by
    cases h
    rfl

theorem itemsReplayer_choices : ∀ (items : List (Regex × Quantifier)) (stop pos : Nat)
    (repetitions : List (Repetition Trace)), ItemsTiled items stop pos repetitions →
    RepetitionsEndFit repetitions →
    ∀ rest, (itemsReplayer items).run pos (repetitionsChoices repetitions ++ rest) =
      .ok (repetitions, rest) ∧ Replayer.stopOf pos repetitions = stop
  | [], stop, pos, [], h, _, rest => ⟨rfl, h⟩
  | (r, q) :: items, stop, pos, repetition :: repetitions, h, ⟨hEnd, hEnds, hLaterEnds⟩, rest => by
    obtain ⟨rfl, hTiles, hItems⟩ := h
    obtain ⟨hRun, hStop⟩ :=
      itemsReplayer_choices items stop repetition.span.stop repetitions hItems hLaterEnds rest
    have hItem := Replayer.repeatedAt_choices (Regex.replayer_choices r) repetition hTiles hEnds
      (repetitionsChoices repetitions ++ rest)
    refine ⟨?_, hStop⟩
    rw [repetitionsChoices, itemsReplayer, List.append_assoc, List.cons_append]
    simp only [Replayer.more, Replayer.moreAt, Replayer.repeated, hItem,
      Span.checkedStop_of_lt hEnd, hRun]

theorem branchReplayers_choices : ∀ (branches : List Regex) (branch pos : Nat) (t : Trace),
    BranchTiled branches branch pos t →
    ∃ reader, (branchReplayers branches)[branch]? = some reader ∧
      (t.EndsFit → ∀ rest, reader.run pos (t.choices ++ rest) = .ok (t, rest))
  | r :: _, 0, pos, t, h => ⟨r.replayer, rfl, Regex.replayer_choices r pos t h⟩
  | _ :: branches, branch + 1, pos, t, h => branchReplayers_choices branches branch pos t h

end

end BacktrackRegex
