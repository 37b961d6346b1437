import BacktrackRegex.CharSet
import BacktrackRegex.Quantifier

/-!
# Regular expressions

The tree that a pattern stands for.  A sequence carries a quantifier on each of its items; an
alternation tries its branches in order; a group carries the number under which its match is
captured, or none.

* `Regex.groupCount` — the number of capturing groups, those of every branch included;
* `Regex.Branched` — no alternation anywhere in the tree is without branches.
-/

set_option autoImplicit false

namespace BacktrackRegex

/-- A regular expression. -/
inductive Regex where
  /-- Items one after the other, each repeated as its quantifier says. -/
  | seq (items : List (Regex × Quantifier))
  /-- One of the branches, earlier ones preferred. -/
  | alt (branches : List Regex)
  /-- A group; `id` is the number of its capture, absent if it captures nothing. -/
  | group (id : Option Nat) (body : Regex)
  /-- A single character. -/
  | leaf (set : CharSet)

instance : Inhabited Regex := ⟨.seq []⟩

mutual

/-- Number of capturing groups, counted in every branch of every alternation. -/
def Regex.groupCount : Regex → Nat
  | .seq items => itemsGroupCount items
  | .alt branches => branchesGroupCount branches
  | .group id body => (if id.isSome then 1 else 0) + body.groupCount
  | .leaf _ => 0

/-- Capturing groups in the items of a sequence. -/
def itemsGroupCount : List (Regex × Quantifier) → Nat
  | [] => 0
  | (r, _) :: items => r.groupCount + itemsGroupCount items

/-- Capturing groups in the branches of an alternation. -/
def branchesGroupCount : List Regex → Nat
  | [] => 0
  | r :: branches => r.groupCount + branchesGroupCount branches

end

mutual

/-- Every alternation in the tree has a branch. -/
def Regex.Branched : Regex → Prop
  | .seq items => ItemsBranched items
  | .alt branches => branches ≠ [] ∧ BranchesBranched branches
  | .group _ body => body.Branched
  | .leaf _ => True

/-- Every alternation in the items of a sequence has a branch. -/
def ItemsBranched : List (Regex × Quantifier) → Prop
  | [] => True
  | (r, _) :: items => r.Branched ∧ ItemsBranched items

/-- Every alternation inside the branches of an alternation has a branch. -/
def BranchesBranched : List Regex → Prop
  | [] => True
  | r :: branches => r.Branched ∧ BranchesBranched branches

end

end BacktrackRegex
