import BacktrackRegex.Regex
import BacktrackRegex.Trace.Basic
import BacktrackRegex.Trace.Choice

/-!
# Replaying choices

Walking over the regex again and reading the choices of a successful search in order gives back
the trace of the match; all spans come out on the way.  Each piece of the regex is a `Replayer`,
which reads the choices it needs and leaves the others, and the pieces are put together as the
regex is.  Wherever a piece may follow another one, the end of the first has to be an offset that
fits its word; a replay that comes to another end fails.

* `Replayer` — a reader of choices, which never leaves more of them than it was given;
* `Replayer.repeated` — an item of a sequence: iterations as long as the log says so;
* `Regex.replayer` — the reader of a whole regex.
-/

set_option autoImplicit false

namespace BacktrackRegex

/-- Reads an `α` that starts at a given place of the text off a list of choices, and gives the
choices that are left. -/
structure Replayer (α : Type) where
  run : Nat → List Choice → Except Fault (α × List Choice)
  shortens : ∀ {pos cs a rest}, run pos cs = .ok (a, rest) → rest.length ≤ cs.length

namespace Replayer

/-! ## Repetitions -/

/-- The iterations that the choices call for, from place `pos` on; `done` holds the earlier ones,
the last of them first.  Gives the iterations in order, the place after them, and the choices left
after the one to stop. -/
def iterations (body : Replayer Trace) (pos : Nat) (done : List Trace) (cs : List Choice) :
    Except Fault (List Trace × Nat × List Choice) :=
  match cs with
  | .iterate :: cs =>
    match _h : body.run pos cs with
    | .error f => .error f
    | .ok (t, rest) =>
      match t.span.checkedStop with
      | .error f => .error f
      | .ok stop => iterations body stop (t :: done) rest
  | .stop :: cs => .ok (done.reverse, pos, cs)
  | _ => .error .unexpectedChoice
termination_by cs.length
decreasing_by
  have := body.shortens _h
  simp only [List.length_cons]
  omega

theorem iterations_length_le {body : Replayer Trace} {pos stop : Nat} {done ts : List Trace}
    {cs rest : List Choice} (h : body.iterations pos done cs = .ok (ts, stop, rest)) :
    rest.length ≤ cs.length := by
  fun_induction iterations body pos done cs with
  | case1 => cases h
  | case2 => cases h
  | case3 pos done cs t rest' hBody stop' _ ih =>
    have := body.shortens hBody
    have := ih h
    simp only [List.length_cons]
    omega
  | case4 => cases h; exact Nat.le_succ _
  | case5 => cases h

/-- An item of a sequence. -/
def repeatedAt (body : Replayer Trace) (pos : Nat) (cs : List Choice) :
    Except Fault (Repetition Trace × List Choice) :=
  match body.iterations pos [] cs with
  | .error f => .error f
  | .ok (iterations, stop, rest) =>
    match Span.between pos stop with
    | .error f => .error f
    | .ok span => .ok (⟨span, iterations⟩, rest)

/-- The reader of an item of a sequence over the reader of one iteration. -/
def repeated (body : Replayer Trace) : Replayer (Repetition Trace) where
  run := body.repeatedAt
  shortens h := by
    unfold repeatedAt at h
    split at h
    · cases h
    · rename_i hIterations
      split at h <;> cases h
      exact iterations_length_le hIterations

/-! ## Sequences -/

/-- The reader of no items at all. -/
def none : Replayer (List (Repetition Trace)) where
  run _ cs := .ok ([], cs)
  shortens h := by cases h; exact Nat.le_refl _

/-- An item and, from where it ends, the items after it. -/
def moreAt (item : Replayer (Repetition Trace)) (items : Replayer (List (Repetition Trace)))
    (pos : Nat) (cs : List Choice) : Except Fault (List (Repetition Trace) × List Choice) :=
  match item.run pos cs with
  | .error f => .error f
  | .ok (repetition, rest) =>
    match repetition.span.checkedStop with
    | .error f => .error f
    | .ok stop =>
      match items.run stop rest with
      | .error f => .error f
      | .ok (repetitions, rest') => .ok (repetition :: repetitions, rest')

/-- The reader of an item and of the items after it. -/
def more (item : Replayer (Repetition Trace)) (items : Replayer (List (Repetition Trace))) :
    Replayer (List (Repetition Trace)) where
  run := moreAt item items
  shortens h := by
    unfold moreAt at h
    split at h
    · cases h
    · rename_i hItem
      split at h
      · cases h
      · split at h <;> cases h
        rename_i hItems
        exact Nat.le_trans (items.shortens hItems) (item.shortens hItem)

/-- Where the last of some repetitions that start at `pos` ends.  The repetitions that `more` reads
end at offsets, so no end is checked here again. -/
def stopOf (pos : Nat) (repetitions : List (Repetition Trace)) : Nat :=
  repetitions.foldl (fun _ repetition => repetition.span.stop) pos

/-- A sequence: its items, and the span from its start to the end of the last item. -/
def sequenceAt (items : Replayer (List (Repetition Trace))) (pos : Nat) (cs : List Choice) :
    Except Fault (Trace × List Choice) :=
  match items.run pos cs with
  | .error f => .error f
  | .ok (repetitions, rest) =>
    match Span.between pos (stopOf pos repetitions) with
    | .error f => .error f
    | .ok span => .ok (.seq span repetitions, rest)

/-- The reader of a sequence over the reader of its items. -/
def sequence (items : Replayer (List (Repetition Trace))) : Replayer Trace where
  run := sequenceAt items
  shortens h := by
    unfold sequenceAt at h
    split at h
    · cases h
    · rename_i hItems
      split at h <;> cases h
      exact items.shortens hItems

/-! ## Alternations, groups and leaves -/

/-- An alternation: the next choice names the branch. -/
def choiceAt (branches : List (Replayer Trace)) (pos : Nat) (cs : List Choice) :
    Except Fault (Trace × List Choice) :=
  match cs with
  | .branch b :: cs =>
    match branches[b]? with
    | Option.none => .error (.noBranch b)
    | some branch =>
      match branch.run pos cs with
      | .error f => .error f
      | .ok (t, rest) => .ok (.alt b t, rest)
  | _ => .error .unexpectedChoice

/-- The reader of an alternation over the readers of its branches. -/
def choice (branches : List (Replayer Trace)) : Replayer Trace where
  run := choiceAt branches
  shortens h := by
    unfold choiceAt at h
    split at h
    · split at h
      · cases h
      · rename_i branch _
        split at h <;> cases h
        rename_i hBranch
        exact Nat.le_succ_of_le (branch.shortens hBranch)
    · cases h

/-- A group covers what its body does. -/
def groupAt (body : Replayer Trace) (pos : Nat) (cs : List Choice) :
    Except Fault (Trace × List Choice) :=
  match body.run pos cs with
  | .error f => .error f
  | .ok (t, rest) => .ok (.group t.span t, rest)

/-- The reader of a group over the reader of its body. -/
def group (body : Replayer Trace) : Replayer Trace where
  run := groupAt body
  shortens h := by
    unfold groupAt at h
    split at h <;> cases h
    rename_i hBody
    exact body.shortens hBody

/-- The reader of a leaf: one character, and no choice. -/
def char : Replayer Trace where
  run pos cs := .ok (.char ⟨pos, 1⟩, cs)
  shortens h := by cases h; exact Nat.le_refl _

end Replayer

mutual

/-- The reader of the choices of a regex. -/
def Regex.replayer : Regex → Replayer Trace
  | .seq items => .sequence (itemsReplayer items)
  | .alt branches => .choice (branchReplayers branches)
  | .group _ body => .group body.replayer
  | .leaf _ => .char

/-- The reader of the choices of the items of a sequence. -/
def itemsReplayer : List (Regex × Quantifier) → Replayer (List (Repetition Trace))
  | [] => .none
  | (r, _) :: items => .more (.repeated r.replayer) (itemsReplayer items)

/-- The readers of the choices of the branches of an alternation. -/
def branchReplayers : List Regex → List (Replayer Trace)
  | [] => []
  | r :: branches => r.replayer :: branchReplayers branches

end

end BacktrackRegex
