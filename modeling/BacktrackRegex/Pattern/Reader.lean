import BacktrackRegex.Pattern.Class
import BacktrackRegex.Pattern.Repetition

/-!
# Reading regular expressions

The grammar in three layers.  An alternation is one sequence or several with `|` between; a
sequence is a run of atoms, each with its quantifier; an atom is a group, a class, an escape, a dot
or an ordinary character.  Groups hold alternations again.  How deep they may nest is a number of
levels, of which every group takes one.

A `)` ends a sequence only inside a group (`nested`); elsewhere it is an ordinary character.

* `readSequence`, `readAlternation` — the upper layers over a given reader of atoms;
* `readGroup` — a group around an alternation;
* `readAtom` — the reader of atoms with so many levels of groups to spare.
-/

set_option autoImplicit false

namespace BacktrackRegex

/-! ## Sequences -/

/-- No further atom belongs to the sequence: the pattern ends, or a `|` follows, or, inside a group,
a `)`. -/
def endsSequence (nested : Bool) : List Char → Bool
  | [] => true
  | ch :: _ => ch == '|' || (ch == ')' && nested)

/-- The items of a sequence: atoms with their quantifiers, as many as there are. -/
def readItems (nested : Bool) (atom : Consumer Regex) (c : Cursor) :
    Reading (List (Regex × Quantifier)) :=
  if endsSequence nested c.rest then .ok ([], c)
  else
    match _hAtom : atom.read c with
    | .error f => .error f
    | .ok (r, c₁) =>
      match _hQuantifier : readQuantifier c₁ with
      | .error f => .error f
      | .ok (q, c₂) =>
        match readItems nested atom c₂ with
        | .error f => .error f
        | .ok (items, c₃) => .ok ((r, q) :: items, c₃)
termination_by c.rest.length
decreasing_by
  have := atom.shortens _hAtom
  have := readQuantifier_length_le _hQuantifier
  omega

/-- A sequence. -/
def readSequence (nested : Bool) (atom : Consumer Regex) (c : Cursor) : Reading Regex :=
  match readItems nested atom c with
  | .error f => .error f
  | .ok (items, c') => .ok (.seq items, c')

theorem readItems_length_le {nested : Bool} {atom : Consumer Regex} {c c' : Cursor}
    {items : List (Regex × Quantifier)} (h : readItems nested atom c = .ok (items, c')) :
    c'.rest.length ≤ c.rest.length := by
  fun_induction readItems nested atom c generalizing items c' with
  | case1 => cases h; exact Nat.le_refl _
  | case2 => cases h
  | case3 => cases h
  | case4 => cases h
  | case5 c _ r c₁ hAtom q c₂ hQuantifier items c₃ hItems ih =>
    cases h
    have := atom.shortens hAtom
    have := readQuantifier_length_le hQuantifier
    have := ih hItems
    omega

theorem readSequence_length_le {nested : Bool} {atom : Consumer Regex} {c c' : Cursor} {r : Regex}
    (h : readSequence nested atom c = .ok (r, c')) : c'.rest.length ≤ c.rest.length := by
  unfold readSequence at h
  split at h
  · cases h
  · rename_i hItems
    cases h
    exact readItems_length_le hItems

/-! ## Alternations -/

/-- The branches after the first one, each behind a `|`. -/
def readBranches (nested : Bool) (atom : Consumer Regex) (c : Cursor) : Reading (List Regex) :=
  match _hRest : c.rest with
  | '|' :: _ =>
    match _hBranch : readSequence nested atom c.next with
    | .error f => .error f
    | .ok (r, c₁) =>
      match readBranches nested atom c₁ with
      | .error f => .error f
      | .ok (branches, c₂) => .ok (r :: branches, c₂)
  | _ => .ok ([], c)
termination_by c.rest.length
decreasing_by
  have := Cursor.next_length_lt (c := c) (by simp [_hRest])
  have := readSequence_length_le _hBranch
  omega

/-- An alternation; a single branch stands for itself. -/
def readAlternation (nested : Bool) (atom : Consumer Regex) (c : Cursor) : Reading Regex :=
  match readSequence nested atom c with
  | .error f => .error f
  | .ok (first, c₁) =>
    match readBranches nested atom c₁ with
    | .error f => .error f
    | .ok ([], c₂) => .ok (first, c₂)
    | .ok (branch :: branches, c₂) => .ok (.alt (first :: branch :: branches), c₂)

theorem readBranches_length_le {nested : Bool} {atom : Consumer Regex} {c c' : Cursor}
    {branches : List Regex} (h : readBranches nested atom c = .ok (branches, c')) :
    c'.rest.length ≤ c.rest.length := by
  fun_induction readBranches nested atom c generalizing branches c' with
  | case1 => cases h
  | case2 => cases h
  | case3 c _ hRest r c₁ hBranch branches c₂ hBranches ih =>
    cases h
    have := c.next_length_le
    have := readSequence_length_le hBranch
    have := ih hBranches
    omega
  | case4 => cases h; exact Nat.le_refl _

theorem readAlternation_length_le {nested : Bool} {atom : Consumer Regex} {c c' : Cursor}
    {r : Regex} (h : readAlternation nested atom c = .ok (r, c')) :
    c'.rest.length ≤ c.rest.length := by
  unfold readAlternation at h
  split at h
  · cases h
  · rename_i hFirst
    have := readSequence_length_le hFirst
    split at h
    · cases h
    all_goals
      rename_i hBranches
      cases h
      have := readBranches_length_le hBranches
      omega

/-! ## Atoms -/

/-- What the opening parenthesis at the cursor opens: a capturing group with the next number or,
before `?:`, a group without one; and the cursor at its body. -/
def openGroup (c : Cursor) : Option Nat × Cursor :=
  match c.next.rest with
  | '?' :: ':' :: _ => (none, c.next.next.next)
  | _ => (some c.nextId, { c.next with nextId := c.nextId + 1 })

theorem openGroup_length_le (c : Cursor) : (openGroup c).2.rest.length ≤ c.rest.length := by
  have := c.next_length_le
  have := c.next.next_length_le
  have := c.next.next.next_length_le
  unfold openGroup
  split <;> dsimp only <;> omega

/-- A group; the cursor stands at the opening parenthesis.  A failure inside the body leaves this
group open as well; a missing parenthesis after the body does not. -/
def readGroupBody (atom : Consumer Regex) (c : Cursor) : Reading Regex :=
  match readAlternation true atom (openGroup c).2 with
  | .error f => .error { f with openGroups := f.openGroups + 1 }
  | .ok (body, c') =>
    match c'.rest with
    | ')' :: _ => .ok (.group (openGroup c).1 body, c'.next)
    | _ => .error (.unsupported c'.pos c')

/-- The reader of groups over a reader of atoms for their bodies. -/
def readGroup (atom : Consumer Regex) : Consumer Regex where
  read := readGroupBody atom
  shortens {c r c'} h := by
    unfold readGroupBody at h
    split at h
    · cases h
    · rename_i hBody
      have := openGroup_length_le c
      have := readAlternation_length_le hBody
      split at h <;> cases h
      rename_i hRest
      have := Cursor.next_length_lt (by rw [hRest]; exact List.cons_ne_nil _ _)
      omega

/-- An atom, where `group` reads what an opening parenthesis begins. -/
def readAtomBody (group : Consumer Regex) (c : Cursor) : Reading Regex :=
  match c.rest with
  | [] => .error (.unsupported c.pos c)
  | '(' :: _ => group.read c
  | '[' :: _ => readClass c
  | '\\' :: _ => readEscape c
  | '.' :: _ => .ok (.leaf .any, c.next)
  | ch :: _ =>
    if ch = '*' ∨ ch = '+' ∨ ch = '?' ∨ ch = ']' ∨ ch = '|' then .error (.unsupported c.pos c)
    else .ok (.leaf (.only ch), c.next)

/-- The reader of atoms over a reader of groups. -/
def readAtomWith (group : Consumer Regex) : Consumer Regex where
  read := readAtomBody group
  shortens {c r c'} h := by
    unfold readAtomBody at h
    split at h
    · cases h
    · exact group.shortens h
    · exact readClass_length_lt h
    · exact readEscape_length_lt h
    · rename_i hRest
      cases h
      exact Cursor.next_length_lt (by simp [hRest])
    · rename_i hRest
      split at h <;> cases h
      exact Cursor.next_length_lt (by simp [hRest])

/-- The reader of atoms with so many levels of groups to spare.  With no level left an opening
parenthesis is refused where it stands. -/
def readAtom : Nat → Consumer Regex
  | 0 => readAtomWith .refuse
  | levels + 1 => readAtomWith (readGroup (readAtom levels))

end BacktrackRegex
