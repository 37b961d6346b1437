import BacktrackRegex.Pattern.Cursor
import BacktrackRegex.Quantifier
import BacktrackRegex.Text.Decimal

/-!
# Reading quantifiers

After an atom, `*`, `+` and `?` are quantifiers, and so are the complete brace forms of one number,
of a number and a comma, and of two numbers with a comma between.  Braces of any other shape are no
quantifier: nothing is read, and the opening brace is left to be an ordinary character.

* `readNumber` — a run of digits as a 32-bit bound;
* `readQuantifier` — the quantifier after an atom, `Quantifier.once` if there is none.
-/

set_option autoImplicit false

namespace BacktrackRegex

/-- The run of ASCII digits at the cursor as a bound, none if there is no digit.  A number of more
than 32 bits is an error at its first digit. -/
def readNumber (c : Cursor) : Reading (Option UInt32) :=
  match c.rest.takeWhile Char.isDigit with
  | [] => .ok (none, c)
  | digits =>
    let next := { c with rest := c.rest.dropWhile Char.isDigit, pos := c.pos + byteLength digits }
    if h : decimalValue digits < UInt32.size then
      .ok (some (UInt32.ofNatLT (decimalValue digits) h), next)
    else .error (.badBounds c.pos next)

/-- The upper bound inside braces: after a comma the number there, unbounded if there is none;
without a comma the lower bound `min`. -/
def readUpperBound (min : UInt32) (c : Cursor) : Reading (Option UInt32) :=
  match c.rest with
  | ',' :: _ => readNumber c.next
  | _ => .ok (some min, c)

/-- A brace form at the cursor, which stands at the opening brace.  Bounds out of order are an error
at the brace. -/
def readBraces (c : Cursor) : Reading Quantifier :=
  match readNumber c.next with
  | .error f => .error f
  | .ok (none, _) => .ok (.once, c)
  | .ok (some min, c₁) =>
    match readUpperBound min c₁ with
    | .error f => .error f
    | .ok (max, c₂) =>
      match c₂.rest with
      | '\x7d' :: _ =>
        if max.any (· < min) then .error (.badBounds c.pos c₂.next) else .ok (⟨min, max⟩, c₂.next)
      | _ => .ok (.once, c)

/-- The quantifier at the cursor, `Quantifier.once` if none stands there. -/
def readQuantifier (c : Cursor) : Reading Quantifier :=
  match c.rest with
  | '*' :: _ => .ok (.zeroOrMore, c.next)
  | '+' :: _ => .ok (.oneOrMore, c.next)
  | '?' :: _ => .ok (.zeroOrOne, c.next)
  | '\x7b' :: _ => readBraces c
  | _ => .ok (.once, c)

/-! ## How much is left -/

theorem length_dropWhile_le (p : Char → Bool) (cs : List Char) :
    (cs.dropWhile p).length ≤ cs.length :=
  (List.dropWhile_sublist p).length_le

theorem readNumber_length_le {c c' : Cursor} {n : Option UInt32}
    (h : readNumber c = .ok (n, c')) : c'.rest.length ≤ c.rest.length := by
  unfold readNumber at h
  split at h
  · cases h
    exact Nat.le_refl _
  · split at h
    · cases h
      exact length_dropWhile_le _ _
    · cases h

theorem readUpperBound_length_le {min : UInt32} {c c' : Cursor} {n : Option UInt32}
    (h : readUpperBound min c = .ok (n, c')) : c'.rest.length ≤ c.rest.length := by
  unfold readUpperBound at h
  split at h
  · exact Nat.le_trans (readNumber_length_le h) c.next_length_le
  · cases h
    exact Nat.le_refl _

theorem readBraces_length_le {c c' : Cursor} {q : Quantifier}
    (h : readBraces c = .ok (q, c')) : c'.rest.length ≤ c.rest.length := by
  unfold readBraces at h
  split at h
  · cases h
  · cases h
    exact Nat.le_refl _
  · rename_i hMin
    split at h
    · cases h
    · rename_i c₂ hMax
      have := c.next_length_le
      have := readNumber_length_le hMin
      have := readUpperBound_length_le hMax
      have := c₂.next_length_le
      split at h
      · split at h <;> cases h
        omega
      · cases h
        exact Nat.le_refl _

theorem readQuantifier_length_le {c c' : Cursor} {q : Quantifier}
    (h : readQuantifier c = .ok (q, c')) : c'.rest.length ≤ c.rest.length := by
  unfold readQuantifier at h
  split at h
  case h_4 => exact readBraces_length_le h
  all_goals cases h
  case h_5 => exact Nat.le_refl _
  all_goals exact c.next_length_le

end BacktrackRegex
