import BacktrackRegex.Regex
import Mathlib.Computability.Language

/-!
# The language of a regex

The words that a regex matches in the plain sense of regular languages.  A quantifier stands for the
powers with an exponent within its bounds; which iterations are empty plays no part.

* `Quantifier.Allows` — a number of iterations within the bounds;
* `Quantifier.powers` — the words of so many iterations;
* `Regex.language` — the words of a regex.
-/

set_option autoImplicit false

namespace BacktrackRegex

namespace Quantifier

/-- The number lies within the bounds. -/
def Allows (q : Quantifier) (count : Nat) : Prop :=
  q.min.toNat ≤ count ∧ ∀ max, q.max = some max → count ≤ max.toNat

/-- The words put together from an allowed number of words of a language. -/
def powers (q : Quantifier) (L : Language Char) : Language Char :=
  {w | ∃ count, q.Allows count ∧ w ∈ L ^ count}

theorem allowsStop_iff {q : Quantifier} {count : Nat} :
    q.allowsStop count = true ↔ q.min.toNat ≤ count :=
  decide_eq_true_iff

theorem allowsMore_iff {q : Quantifier} {count : Nat} :
    q.allowsMore count = true ↔ ∀ max, q.max = some max → count < max.toNat := by
  unfold allowsMore
  split
  · rename_i hMax
    simp [hMax]
  · rename_i max hMax
    simp [hMax]

end Quantifier

mutual

/-- The words that a regex matches. -/
def Regex.language : Regex → Language Char
  | .seq items => itemsLanguage items
  | .alt branches => branchesLanguage branches
  | .group _ body => body.language
  | .leaf set => {w | ∃ c, set.accepts c = true ∧ w = [c]}

/-- A word of each item, one after the other. -/
def itemsLanguage : List (Regex × Quantifier) → Language Char
  | [] => 1
  | (r, q) :: items => q.powers r.language * itemsLanguage items

/-- The words of any of the branches. -/
def branchesLanguage : List Regex → Language Char
  | [] => 0
  | r :: branches => r.language + branchesLanguage branches

end

end BacktrackRegex
