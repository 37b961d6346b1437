/-!
# Quantifiers

How often an item of a sequence may be repeated: at least `min` and, if there is a bound, at most
`max` times.  Bounds are 32-bit words.  Nothing asks that `min ≤ max`; a quantifier that breaks it
can be met by no number of iterations.
-/

set_option autoImplicit false

namespace BacktrackRegex

/-- Bounds on the number of iterations of an item; no `max` means that there is no upper bound. -/
structure Quantifier where
  min : UInt32
  max : Option UInt32
  deriving DecidableEq, Repr

namespace Quantifier

/-- Exactly once: the quantifier of an item that carries none. -/
def once : Quantifier := ⟨1, some 1⟩

/-- The quantifier `*`. -/
def zeroOrMore : Quantifier := ⟨0, none⟩

/-- The quantifier `+`. -/
def oneOrMore : Quantifier := ⟨1, none⟩

/-- The quantifier `?`. -/
def zeroOrOne : Quantifier := ⟨0, some 1⟩

instance : Inhabited Quantifier := ⟨once⟩

/-- After `count` iterations another one is allowed. -/
def allowsMore (q : Quantifier) (count : Nat) : Bool :=
  match q.max with
  | none => true
  | some max => count < max.toNat

/-- After `count` iterations the repetition may end. -/
def allowsStop (q : Quantifier) (count : Nat) : Bool := q.min.toNat ≤ count

end Quantifier

end BacktrackRegex
