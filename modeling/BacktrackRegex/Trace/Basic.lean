import BacktrackRegex.Fault

/-!
# Match traces

A trace records how a match went, in the shape of the regex it came from: which branch of an
alternation was taken, which iterations an item of a sequence went through, and which part of the
text each piece covers.

* `Span` — a run of characters in the text; `Span.stop` — its end, and `Span.checkedStop` — its end
  as an offset that fits a 64-bit word;
* `Trace`, `Repetition` — the record of a match, and of one item of a sequence;
* `Trace.span` — what the whole trace covers.
-/

set_option autoImplicit false

namespace BacktrackRegex

/-- `len` characters of the text, from the character at `start` on. -/
structure Span where
  start : Nat
  len : Nat
  deriving DecidableEq, Repr

/-- Where the character after the span is. -/
def Span.stop (s : Span) : Nat := s.start + s.len

/-- Offsets into a text stay below this number. -/
def offsetCapacity : Nat := 18446744073709551616

/-- The end of a span that may have come from anywhere; a span inside a text always has one. -/
def Span.checkedStop (s : Span) : Except Fault Nat :=
  if s.stop < offsetCapacity then .ok s.stop else .error .offsetOverflow

theorem Span.checkedStop_of_lt {s : Span} (h : s.stop < offsetCapacity) :
    s.checkedStop = .ok s.stop := if_pos h

theorem Span.checkedStop_eq_ok_iff {s : Span} {stop : Nat} :
    s.checkedStop = .ok stop ↔ s.stop = stop ∧ stop < offsetCapacity := by
  unfold checkedStop
  split
  · rename_i hFits
    rw [Except.ok.injEq]
    exact ⟨fun h => ⟨h, h ▸ hFits⟩, And.left⟩
  · rename_i hFull
    constructor
    · intro h
      cases h
    · rintro ⟨rfl, hFits⟩
      exact absurd hFits hFull

/-- The span from `start` up to `stop`. -/
def Span.between (start stop : Nat) : Except Fault Span :=
  if start ≤ stop then .ok ⟨start, stop - start⟩ else .error .backwardSpan

/-- What an item of a sequence went through: its iterations in order, and what they cover. -/
structure Repetition (α : Type) where
  span : Span
  iterations : List α
  deriving DecidableEq, Repr

/-- The record of a match. -/
inductive Trace where
  /-- A leaf took a character. -/
  | char (span : Span)
  /-- A group and what its body did. -/
  | group (span : Span) (body : Trace)
  /-- A sequence, with one repetition for each item. -/
  | seq (span : Span) (items : List (Repetition Trace))
  /-- The branch that was taken, and what it did. -/
  | alt (branch : Nat) (body : Trace)

instance : Inhabited Trace := ⟨.seq ⟨0, 0⟩ []⟩

/-- What the whole trace covers; an alternation covers what its branch does. -/
def Trace.span : Trace → Span
  | .char span => span
  | .group span _ => span
  | .seq span _ => span
  | .alt _ body => body.span

end BacktrackRegex
