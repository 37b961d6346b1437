import BacktrackRegex.Pattern.Cursor
import BacktrackRegex.Regex

/-!
# Reading classes and escapes

* `readMembers`, `readClass` — a character class in brackets;
* `readEscape` — a character after a backslash.
-/

set_option autoImplicit false

namespace BacktrackRegex

/-- The members with `ch` among them: a member keeps the place where it first came up. -/
def addMember (ch : Char) (members : List Char) : List Char :=
  if members.contains ch then members else members ++ [ch]

/-- Members of a class from byte `pos` on, up to and with the closing bracket; `members` are those
read so far.  A caret among them, a backslash at the end of the pattern and a missing bracket are
errors where they stand. -/
def readMembers (nextId : Nat) (pos : Nat) (members : List Char) :
    List Char → Reading (List Char)
  | [] => .error (.unsupported pos ⟨[], pos, nextId⟩)
  | ']' :: rest => .ok (members, ⟨rest, pos + ']'.utf8Size, nextId⟩)
  | ['\\'] => .error (.unsupported pos ⟨[], pos + '\\'.utf8Size, nextId⟩)
  | '\\' :: ch :: rest =>
    readMembers nextId (pos + '\\'.utf8Size + ch.utf8Size) (addMember ch members) rest
  | '^' :: rest => .error (.unsupported pos ⟨rest, pos + '^'.utf8Size, nextId⟩)
  | ch :: rest => readMembers nextId (pos + ch.utf8Size) (addMember ch members) rest

/-- What the opening bracket at the cursor opens: a negated class if a caret follows, and the cursor
at the members. -/
def openClass (c : Cursor) : Bool × Cursor :=
  match c.next.rest with
  | '^' :: _ => (true, c.next.next)
  | _ => (false, c.next)

/-- A class; the cursor stands at the opening bracket. -/
def readClass (c : Cursor) : Reading Regex :=
  match readMembers (openClass c).2.nextId (openClass c).2.pos [] (openClass c).2.rest with
  | .error f => .error f
  | .ok (members, c') => .ok (.leaf (.members (openClass c).1 members), c')

/-- An escape; the cursor stands at the backslash.  Whatever character follows stands for itself. -/
def readEscape (c : Cursor) : Reading Regex :=
  match c.next.rest with
  | [] => .error (.unsupported c.pos c.next)
  | ch :: _ => .ok (.leaf (.only ch), c.next.next)

/-! ## How much is left -/

theorem readMembers_length_lt {nextId pos : Nat} {members rest found : List Char} {c' : Cursor}
    (h : readMembers nextId pos members rest = .ok (found, c')) :
    c'.rest.length < rest.length := by
  fun_induction readMembers nextId pos members rest with
  | case1 => cases h
  | case2 => cases h; exact Nat.lt_succ_self _
  | case3 => cases h
  | case4 pos members ch rest ih =>
    have := ih h
    simp only [List.length_cons]
    omega
  | case5 => cases h
  | case6 pos members ch rest _ _ _ _ ih =>
    have := ih h
    simp only [List.length_cons]
    omega

theorem openClass_length_le (c : Cursor) : (openClass c).2.rest.length ≤ c.rest.length := by
  have := c.next_length_le
  have := c.next.next_length_le
  unfold openClass
  split <;> dsimp only <;> omega

theorem readClass_length_lt {c c' : Cursor} {r : Regex} (h : readClass c = .ok (r, c')) :
    c'.rest.length < c.rest.length := by
  unfold readClass at h
  split at h
  · cases h
  · rename_i hMembers
    cases h
    have := readMembers_length_lt hMembers
    have := openClass_length_le c
    omega

theorem readEscape_length_lt {c c' : Cursor} {r : Regex} (h : readEscape c = .ok (r, c')) :
    c'.rest.length < c.rest.length := by
  unfold readEscape at h
  split at h
  · cases h
  · rename_i hRest
    cases h
    have := c.next_length_le
    have := Cursor.next_length_lt (c := c.next) (by simp [hRest])
    omega

end BacktrackRegex
