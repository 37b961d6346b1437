import BacktrackRegex.Proofs.Trace.Decoding
import BacktrackRegex.Proofs.Trace.Tiling

/-!
# A replay reads what its trace records

The choices of a trace are read back as the trace.  Here is the other direction: whatever choices a
replay is given, if it comes to a trace at all then the trace is shaped like its regex, its spans
tile the text from the place where the replay began, its parts end at offsets, and what was read are
the choices of the trace and no others.  So a list of choices can be read as one trace only, and one
trace has one list.

* `Replayer.iterations_sound` — for the loop over the iterations of an item;
* `Regex.tiled_of_replayer` — for every regex;
* `Regex.replayer_eq_ok_iff` — both directions together.
-/

set_option autoImplicit false

namespace BacktrackRegex

/-- What a span from a place up to another one covers. -/
theorem Span.eq_of_between {start stop : Nat} {s : Span} (h : Span.between start stop = .ok s) :
    s.start = start ∧ s.stop = stop := by
  unfold between at h
  split at h
  · rename_i hLe
    cases h
    exact ⟨rfl, Nat.add_sub_cancel' hLe⟩
  · cases h

/-- The reader comes only to traces that are tiled from where it began and whose parts end at
offsets, and reads their choices. -/
def Replayer.ReadsTiled (body : Replayer Trace) (tiled : Nat → Trace → Prop) : Prop :=
  ∀ pos cs t rest, body.run pos cs = .ok (t, rest) →
    tiled pos t ∧ t.EndsFit ∧ cs = t.choices ++ rest

namespace Replayer

variable {body : Replayer Trace} {tiled : Nat → Trace → Prop} {pos : Nat} {cs rest : List Choice}

/-- The iterations that are read after those in `done` tile the text from `pos` on. -/
theorem iterations_sound (hBody : body.ReadsTiled tiled) {stop : Nat} {done ts : List Trace}
    (h : body.iterations pos done cs = .ok (ts, stop, rest)) :
    ∃ later, ts = done.reverse ++ later ∧ TilesTo tiled stop pos later ∧ IterationsEndFit later ∧
      cs = iterationsChoices later ++ .stop :: rest := by
  fun_induction iterations body pos done cs with
  | case1 => cases h
  | case2 => cases h
  | case3 pos done cs t rest' hRun next hStop ih =>
    obtain ⟨hTiled, hEnds, rfl⟩ := hBody pos cs t rest' hRun
    obtain ⟨rfl, hFits⟩ := Span.checkedStop_eq_ok_iff.1 hStop
    obtain ⟨later, rfl, hTiles, hLaterEnds, rfl⟩ := ih h
    refine ⟨t :: later, ?_, ⟨hTiled, hTiles⟩, ⟨hFits, hEnds, hLaterEnds⟩, ?_⟩
    · rw [List.reverse_cons, List.append_assoc, List.singleton_append]
    · rw [iterationsChoices, List.cons_append, List.append_assoc]
  | case4 pos done cs =>
    cases h
    exact ⟨[], (List.append_nil _).symm, rfl, trivial, rfl⟩
  | case5 => cases h

theorem repeatedAt_sound (hBody : body.ReadsTiled tiled) {repetition : Repetition Trace}
    (h : body.repeatedAt pos cs = .ok (repetition, rest)) :
    repetition.span.start = pos ∧
      TilesTo tiled repetition.span.stop pos repetition.iterations ∧
      IterationsEndFit repetition.iterations ∧
      cs = iterationsChoices repetition.iterations ++ .stop :: rest := by
  unfold repeatedAt at h
  split at h
  · cases h
  · rename_i hIterations
    obtain ⟨later, rfl, hTiles, hEnds, rfl⟩ := iterations_sound hBody hIterations
    split at h
    · cases h
    · rename_i hSpan
      cases h
      obtain ⟨hStart, rfl⟩ := Span.eq_of_between hSpan
      exact ⟨hStart, hTiles, hEnds, rfl⟩

end Replayer

mutual

/-- A trace that a replay comes to is tiled from where the replay began, its parts end at offsets,
and its choices are those that were read. -/
theorem Regex.tiled_of_replayer : ∀ r : Regex, r.replayer.ReadsTiled r.Tiled
  | .seq items, pos, cs, t, rest, h => by
    change Replayer.sequenceAt (itemsReplayer items) pos cs = _ at h
    unfold Replayer.sequenceAt at h
    split at h
    · cases h
    · rename_i repetitions rest' hItems
      obtain ⟨hTiled, hEnds, hChoices⟩ :=
        itemsTiled_of_replayer items pos cs repetitions rest' hItems
      split at h
      · cases h
      · rename_i hSpan
        cases h
        obtain ⟨hStart, hStop⟩ := Span.eq_of_between hSpan
        exact ⟨⟨hStart, hStop ▸ hTiled⟩, hEnds, hChoices⟩
  | .alt branches, pos, cs, t, rest, h => by
    change Replayer.choiceAt (branchReplayers branches) pos cs = _ at h
    unfold Replayer.choiceAt at h
    split at h
    · rename_i branch cs
      split at h
      · cases h
      · rename_i reader hReader
        split at h
        · cases h
        · rename_i hRun
          cases h
          obtain ⟨hTiled, hEnds, rfl⟩ :=
            branchTiled_of_replayer branches branch reader hReader pos cs _ _ hRun
          exact ⟨hTiled, hEnds, rfl⟩
    · cases h
  | .group id body, pos, cs, t, rest, h => by
    change Replayer.groupAt body.replayer pos cs = _ at h
    unfold Replayer.groupAt at h
    split at h
    · cases h
    · rename_i hBody
      cases h
      obtain ⟨hTiled, hEnds, hChoices⟩ := Regex.tiled_of_replayer body pos cs _ _ hBody
      exact ⟨⟨rfl, hTiled⟩, hEnds, hChoices⟩
  | .leaf set, pos, cs, t, rest, h => by
    cases h
    exact ⟨rfl, trivial, rfl⟩

theorem itemsTiled_of_replayer : ∀ (items : List (Regex × Quantifier)) (pos : Nat)
    (cs : List Choice) (repetitions : List (Repetition Trace)) (rest : List Choice),
    (itemsReplayer items).run pos cs = .ok (repetitions, rest) →
    ItemsTiled items (Replayer.stopOf pos repetitions) pos repetitions ∧
      RepetitionsEndFit repetitions ∧ cs = repetitionsChoices repetitions ++ rest
  | [], pos, cs, repetitions, rest, h => by
    cases h
    exact ⟨rfl, trivial, rfl⟩
  | (r, q) :: items, pos, cs, repetitions, rest, h => by
    change Replayer.moreAt (.repeated r.replayer) (itemsReplayer items) pos cs = _ at h
    unfold Replayer.moreAt at h
    split at h
    · cases h
    · rename_i repetition rest' hItem
      obtain ⟨hStart, hTiles, hEnds, rfl⟩ :=
        Replayer.repeatedAt_sound (Regex.tiled_of_replayer r) hItem
      split at h
      · cases h
      · rename_i stop hStop
        obtain ⟨rfl, hFits⟩ := Span.checkedStop_eq_ok_iff.1 hStop
        split at h
        · cases h
        · rename_i later rest'' hItems
          cases h
          obtain ⟨hTiled, hLaterEnds, rfl⟩ := itemsTiled_of_replayer items _ rest' later rest hItems
          refine ⟨⟨hStart, hTiles, hTiled⟩, ⟨hFits, hEnds, hLaterEnds⟩, ?_⟩
          rw [repetitionsChoices, List.append_assoc, List.cons_append]

theorem branchTiled_of_replayer : ∀ (branches : List Regex) (branch : Nat)
    (reader : Replayer Trace), (branchReplayers branches)[branch]? = some reader →
    reader.ReadsTiled (BranchTiled branches branch)
  | [], _, _, hReader => by cases hReader
  | r :: _, 0, _, hReader => by
    cases hReader
    exact Regex.tiled_of_replayer r
  | _ :: branches, branch + 1, reader, hReader =>
    branchTiled_of_replayer branches branch reader hReader

end

/-- A replay that begins at `pos` comes to a trace and leaves `rest` of the choices exactly if the
trace is shaped like the regex, with spans that tile the text from `pos` on and parts that end at
offsets, and the choices are those that the trace records, followed by `rest`.  A tiled trace has
such parts whenever it ends at an offset itself. -/
theorem Regex.replayer_eq_ok_iff (r : Regex) (pos : Nat) (cs : List Choice) (t : Trace)
    (rest : List Choice) :
    (r.replayer.run pos cs = .ok (t, rest) ↔
        r.Tiled pos t ∧ t.EndsFit ∧ cs = t.choices ++ rest) ∧
      (r.Tiled pos t → t.span.stop < offsetCapacity → t.EndsFit) := by
  refine ⟨⟨r.tiled_of_replayer pos cs t rest, ?_⟩, Regex.Tiled.endsFit⟩
  rintro ⟨hTiled, hEnds, rfl⟩
  exact r.replayer_choices pos t hTiled hEnds rest

/-- The pattern `(?:a|b)*`. -/
def Regex.eitherStar : Regex :=
  .seq [(.alt [.leaf (.only 'a'), .leaf (.only 'b')], .zeroOrMore)]

/-- Two iterations of `(?:a|b)*`, the second of which ends at the highest offset there is. -/
def Trace.lastOffsets : Trace :=
  .seq ⟨offsetCapacity - 3, 2⟩ [⟨⟨offsetCapacity - 3, 2⟩,
    [.alt 1 (.char ⟨offsetCapacity - 3, 1⟩), .alt 0 (.char ⟨offsetCapacity - 2, 1⟩)]⟩]

theorem Regex.replayer_eitherStar :
    Regex.eitherStar.Tiled (offsetCapacity - 3) .lastOffsets ∧
      Trace.lastOffsets.span.stop < offsetCapacity ∧
      Regex.eitherStar.replayer.run (offsetCapacity - 3)
        [.iterate, .branch 1, .iterate, .branch 0, .stop, .stop] =
          .ok (.lastOffsets, [.stop]) := by
  have hTiled : Regex.eitherStar.Tiled (offsetCapacity - 3) .lastOffsets :=
    ⟨rfl, rfl, ⟨rfl, rfl, rfl⟩, rfl⟩
  have hStop : Trace.lastOffsets.span.stop < offsetCapacity := by decide
  obtain ⟨hIff, hEnds⟩ := Regex.replayer_eq_ok_iff .eitherStar (offsetCapacity - 3)
    [.iterate, .branch 1, .iterate, .branch 0, .stop, .stop] .lastOffsets [.stop]
  exact ⟨hTiled, hStop, hIff.2 ⟨hTiled, hEnds hTiled hStop, rfl⟩⟩

/-- One place further on, the second iteration would end where no offset is. -/
example : Regex.eitherStar.replayer.run (offsetCapacity - 2)
    [.iterate, .branch 1, .iterate, .branch 0, .stop] = .error .offsetOverflow := by cbv

end BacktrackRegex
