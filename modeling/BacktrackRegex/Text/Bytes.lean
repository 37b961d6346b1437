/-!
# Byte offsets into text

Positions in a pattern are counted in bytes of its UTF-8 form, while reading goes character by
character.

* `byteLength` — bytes that a list of characters takes;
* `dropBytes?` — what is left after so many bytes, if that is a character boundary.
-/

set_option autoImplicit false

namespace BacktrackRegex

/-- Bytes that the characters take in UTF-8. -/
def byteLength : List Char → Nat
  | [] => 0
  | c :: cs => c.utf8Size + byteLength cs

@[simp] theorem byteLength_append (cs ds : List Char) :
    byteLength (cs ++ ds) = byteLength cs + byteLength ds := by
  induction cs with
  | nil => exact (Nat.zero_add _).symm
  | cons c cs ih => rw [List.cons_append, byteLength, byteLength, ih, Nat.add_assoc]

/-- The characters after the first `n` bytes; none if byte `n` lies inside a character or beyond
the end. -/
def dropBytes? : List Char → Nat → Option (List Char)
  | cs, 0 => some cs
  | [], _ + 1 => none
  | c :: cs, n + 1 => if c.utf8Size ≤ n + 1 then dropBytes? cs (n + 1 - c.utf8Size) else none

theorem dropBytes?_append (cs ds : List Char) :
    dropBytes? (cs ++ ds) (byteLength cs) = some ds := by
  induction cs with
  | nil => cases ds <;> rfl
  | cons c cs ih =>
    obtain ⟨n, hSize⟩ := Nat.exists_eq_succ_of_ne_zero (Nat.ne_of_gt c.utf8Size_pos)
    have hSum : byteLength (c :: cs) = n + byteLength cs + 1 := by
      rw [byteLength, hSize]
      omega
    have hRest : n + byteLength cs + 1 - c.utf8Size = byteLength cs := by omega
    rw [List.cons_append, hSum, dropBytes?, if_pos (by omega), hRest, ih]

/-- What is left after so many bytes is what comes after a text of that length. -/
theorem dropBytes?_eq_some_iff {cs ds : List Char} {n : Nat} :
    dropBytes? cs n = some ds ↔ ∃ before, cs = before ++ ds ∧ n = byteLength before := by
  constructor
  · intro h
    fun_induction dropBytes? cs n with
    | case1 cs =>
      cases h
      exact ⟨[], rfl, rfl⟩
    | case2 => cases h
    | case3 c cs n hSize ih =>
      obtain ⟨before, rfl, hLength⟩ := ih h
      refine ⟨c :: before, rfl, ?_⟩
      rw [byteLength, ← hLength]
      omega
    | case4 => cases h
  · rintro ⟨before, rfl, rfl⟩
    exact dropBytes?_append before ds

end BacktrackRegex
