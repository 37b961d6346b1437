import BacktrackRegex.Regex
import BacktrackRegex.Trace.Basic
import BacktrackRegex.Trace.Choice

/-!
# The shape of a trace

* `Regex.Fits` — the trace is shaped like the regex, whatever its spans say;
* `Regex.Tiled` — it is, and its spans cover the text from a given place on without gap or overlap;
* `Trace.Within` — no span of the trace leaves the text;
* `Trace.EndsFit` — where something may follow inside the trace, it follows at an offset;
* `Trace.choices` — the choices that the trace records, in the order in which a search takes them.
-/

set_option autoImplicit false

namespace BacktrackRegex

/-! ## Shapes -/

mutual

/-- The trace is shaped like the regex: the same kind of node everywhere, one repetition for each
item of a sequence, and a branch that the alternation has. -/
def Regex.Fits : Regex → Trace → Prop
  | .seq items, .seq _ repetitions => ItemsFit items repetitions
  | .alt branches, .alt branch t => BranchFits branches branch t
  | .group _ body, .group _ t => body.Fits t
  | .leaf _, .char _ => True
  | _, _ => False

/-- Every iteration of every repetition is shaped like the item. -/
def ItemsFit : List (Regex × Quantifier) → List (Repetition Trace) → Prop
  | [], [] => True
  | (r, _) :: items, repetition :: repetitions =>
    (∀ t ∈ repetition.iterations, r.Fits t) ∧ ItemsFit items repetitions
  | _, _ => False

/-- There is a branch of this number, and the trace is shaped like it. -/
def BranchFits : List Regex → Nat → Trace → Prop
  | [], _, _ => False
  | r :: _, 0, t => r.Fits t
  | _ :: branches, branch + 1, t => BranchFits branches branch t

end

/-! ## Spans -/

/-- Traces that follow one another from `pos` to `stop`, each of them tiled from where it starts. -/
def TilesTo (tiled : Nat → Trace → Prop) (stop : Nat) : Nat → List Trace → Prop
  | pos, [] => pos = stop
  | pos, t :: ts => tiled pos t ∧ TilesTo tiled stop t.span.stop ts

mutual

/-- The trace is shaped like the regex, starts at `pos`, and its parts follow one another: a leaf
takes one character, iterations fill their repetition, and repetitions their sequence. -/
def Regex.Tiled : Regex → Nat → Trace → Prop
  | .seq items, pos, .seq span repetitions =>
    span.start = pos ∧ ItemsTiled items span.stop pos repetitions
  | .alt branches, pos, .alt branch t => BranchTiled branches branch pos t
  | .group _ body, pos, .group span t => span = t.span ∧ body.Tiled pos t
  | .leaf _, pos, .char span => span = ⟨pos, 1⟩
  | _, _, _ => False

/-- The repetitions follow one another from `pos` to `stop`. -/
def ItemsTiled : List (Regex × Quantifier) → Nat → Nat → List (Repetition Trace) → Prop
  | [], stop, pos, [] => pos = stop
  | (r, _) :: items, stop, pos, repetition :: repetitions =>
    repetition.span.start = pos ∧
      TilesTo r.Tiled repetition.span.stop pos repetition.iterations ∧
      ItemsTiled items stop repetition.span.stop repetitions
  | _, _, _, _ => False

/-- There is a branch of this number, and the trace is tiled as it. -/
def BranchTiled : List Regex → Nat → Nat → Trace → Prop
  | [], _, _, _ => False
  | r :: _, 0, pos, t => r.Tiled pos t
  | _ :: branches, branch + 1, pos, t => BranchTiled branches branch pos t

end

mutual

/-- No span of the trace ends behind the place `size`. -/
def Trace.Within (size : Nat) : Trace → Prop
  | .char span => span.stop ≤ size
  | .group span body => span.stop ≤ size ∧ body.Within size
  | .seq span repetitions => span.stop ≤ size ∧ RepetitionsWithin size repetitions
  | .alt _ body => body.Within size

/-- No span of the repetitions ends behind the place `size`. -/
def RepetitionsWithin (size : Nat) : List (Repetition Trace) → Prop
  | [] => True
  | ⟨span, iterations⟩ :: repetitions =>
    span.stop ≤ size ∧ IterationsWithin size iterations ∧ RepetitionsWithin size repetitions

/-- No span of the iterations ends behind the place `size`. -/
def IterationsWithin (size : Nat) : List Trace → Prop
  | [] => True
  | t :: iterations => t.Within size ∧ IterationsWithin size iterations

end

mutual

/-- Every iteration and every repetition in the trace ends at an offset, where the next one or what
stands behind the item can begin.  The end of the whole trace is another matter: nothing in the
trace follows it. -/
def Trace.EndsFit : Trace → Prop
  | .char _ => True
  | .group _ body => body.EndsFit
  | .seq _ repetitions => RepetitionsEndFit repetitions
  | .alt _ body => body.EndsFit

/-- Every repetition, and every iteration in it, ends at an offset. -/
def RepetitionsEndFit : List (Repetition Trace) → Prop
  | [] => True
  | ⟨span, iterations⟩ :: repetitions =>
    span.stop < offsetCapacity ∧ IterationsEndFit iterations ∧ RepetitionsEndFit repetitions

/-- Every iteration, and whatever may be followed inside it, ends at an offset. -/
def IterationsEndFit : List Trace → Prop
  | [] => True
  | t :: iterations => t.span.stop < offsetCapacity ∧ t.EndsFit ∧ IterationsEndFit iterations

end

theorem Trace.Within.span {size : Nat} : ∀ {t : Trace}, t.Within size → t.span.stop ≤ size
  | .char _, h => h
  | .group _ _, h => h.1
  | .seq _ _, h => h.1
  | .alt _ body, h => Trace.Within.span (t := body) h

mutual

/-- If every span ends at an offset, those that something may follow do. -/
theorem Trace.Within.endsFit {size : Nat} (hSize : size < offsetCapacity) :
    ∀ {t : Trace}, t.Within size → t.EndsFit
  | .char _, _ => trivial
  | .group _ body, h => Trace.Within.endsFit hSize (t := body) h.2
  | .seq _ _, h => RepetitionsWithin.endFit hSize h.2
  | .alt _ body, h => Trace.Within.endsFit hSize (t := body) h

theorem RepetitionsWithin.endFit {size : Nat} (hSize : size < offsetCapacity) :
    ∀ {repetitions : List (Repetition Trace)}, RepetitionsWithin size repetitions →
    RepetitionsEndFit repetitions
  | [], _ => trivial
  | ⟨_, _⟩ :: _, ⟨hSpan, hIterations, hRest⟩ =>
    ⟨Nat.lt_of_le_of_lt hSpan hSize, IterationsWithin.endFit hSize hIterations,
      RepetitionsWithin.endFit hSize hRest⟩

theorem IterationsWithin.endFit {size : Nat} (hSize : size < offsetCapacity) :
    ∀ {iterations : List Trace}, IterationsWithin size iterations → IterationsEndFit iterations
  | [], _ => trivial
  | _ :: _, ⟨hFirst, hRest⟩ =>
    ⟨Nat.lt_of_le_of_lt hFirst.span hSize, Trace.Within.endsFit hSize hFirst,
      IterationsWithin.endFit hSize hRest⟩

end

/-! ## Choices -/

mutual

/-- The choices on the way to a match that went as the trace says. -/
def Trace.choices : Trace → List Choice
  | .char _ => []
  | .group _ body => body.choices
  | .seq _ repetitions => repetitionsChoices repetitions
  | .alt branch body => .branch branch :: body.choices

/-- For each repetition the choices of its iterations, then the one to stop. -/
def repetitionsChoices : List (Repetition Trace) → List Choice
  | [] => []
  | ⟨_, iterations⟩ :: repetitions =>
    iterationsChoices iterations ++ .stop :: repetitionsChoices repetitions

/-- For each iteration the choice to begin it, then its own choices. -/
def iterationsChoices : List Trace → List Choice
  | [] => []
  | t :: iterations => .iterate :: (t.choices ++ iterationsChoices iterations)

end

end BacktrackRegex
