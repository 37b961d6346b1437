import BacktrackRegex.Pattern.Error
import BacktrackRegex.Text.Bytes

/-!
# Reading positions

A reader of a piece of a pattern is a function from a `Cursor` — the characters still to be read,
the byte offset they start at and the number of the next capturing group — to a value and the
cursor after it, or to a `Failure`.  A failure also says where the reader stood and how many groups
it had opened and not closed, since both can be seen by whoever goes on reading.

* `Cursor.next` — one character further;
* `Consumer` — a reader that takes at least one character whenever it succeeds.  Loops over a
  consumer end because the characters left run out.
-/

set_option autoImplicit false

namespace BacktrackRegex

/-- A place in a pattern: what is left to read, where it starts, and the next group number. -/
structure Cursor where
  rest : List Char
  pos : Nat
  nextId : Nat
  deriving DecidableEq, Repr

/-- The cursor after the next character, or the same cursor at the end of the pattern. -/
def Cursor.next (c : Cursor) : Cursor :=
  match c.rest with
  | [] => c
  | ch :: rest => { c with rest, pos := c.pos + ch.utf8Size }

/-- A failed reading: what is wrong at which byte, where the reader stood, and how many groups
around that place were open. -/
structure Failure where
  cause : CompileCause
  position : Nat
  stop : Cursor
  openGroups : Nat := 0
  deriving DecidableEq, Repr

/-- Nothing in the grammar fits at `position`; the reader stands at `stop`. -/
def Failure.unsupported (position : Nat) (stop : Cursor) : Failure :=
  { cause := .unsupportedSyntax, position, stop }

/-- The repetition bounds at `position` are out of order or too large. -/
def Failure.badBounds (position : Nat) (stop : Cursor) : Failure :=
  { cause := .invalidRepetition, position, stop }

/-- What reading an `α` leads to. -/
abbrev Reading (α : Type) := Except Failure (α × Cursor)

/-- A reader that takes at least one character whenever it succeeds. -/
structure Consumer (α : Type) where
  read : Cursor → Reading α
  shortens : ∀ {c a c'}, read c = .ok (a, c') → c'.rest.length < c.rest.length

/-- The reader that never succeeds. -/
def Consumer.refuse {α : Type} : Consumer α where
  read c := .error (.unsupported c.pos c)
  shortens h := by cases h

/-! ## How much is left -/

theorem Cursor.next_of_cons {c : Cursor} {ch : Char} {rest : List Char} (h : c.rest = ch :: rest) :
    c.next = { c with rest, pos := c.pos + ch.utf8Size } := by
  simp [Cursor.next, h]

theorem Cursor.next_rest (c : Cursor) : c.next.rest = c.rest.tail := by
  unfold Cursor.next
  split <;> simp_all

theorem Cursor.next_rest_of_cons {c : Cursor} {ch : Char} {s : List Char}
    (h : c.rest = ch :: s) : c.next.rest = s := by
  rw [Cursor.next_rest, h, List.tail_cons]

theorem Cursor.next_length_le (c : Cursor) : c.next.rest.length ≤ c.rest.length := by
  rw [Cursor.next_rest, List.length_tail]
  exact Nat.sub_le _ _

theorem Cursor.next_length_lt {c : Cursor} (h : c.rest ≠ []) :
    c.next.rest.length < c.rest.length := by
  rw [Cursor.next_rest, List.length_tail]
  exact Nat.sub_lt (List.length_pos_iff.2 h) Nat.one_pos

end BacktrackRegex
