import BacktrackRegex.Proofs.Pattern.Lookahead

/-!
# Pieces that are read by themselves

A class, an escape and a single character are texts of their own: what is read does not depend on
what comes after them.  A class that is refused is refused after members that are read in the same
way, whatever comes after them.

* `ReadsMembers`, `readMembers_ends` — the members of a class, and where their reading ends;
* `ReadsClass`, `readClass_takes`, `readClass_error` — a class that is read, and one that is not;
* `readAtomBody_takes` — atoms that are no groups.
-/

set_option autoImplicit false

namespace BacktrackRegex

variable {c c' : Cursor} {s t : List Char} {ch : Char}

/-! ## Classes -/

/-- Members that are read one after the other, up to a place where the reading could go on in any
way. -/
structure ReadsMembers (nextId pos : Nat) (members text found : List Char) : Prop where
  passes : ∀ depth, (Lexis.members depth).Passes text (.members depth)
  again : ∀ s, readMembers nextId pos members (text ++ s) =
    readMembers nextId (pos + byteLength text) found s

theorem ReadsMembers.nil (nextId pos : Nat) (members : List Char) :
    ReadsMembers nextId pos members [] members :=
  ⟨fun _ => .nil _, fun _ => rfl⟩

theorem ReadsMembers.escaped {nextId pos : Nat} {members text found : List Char} {ch : Char}
    (h : ReadsMembers nextId (pos + '\\'.utf8Size + ch.utf8Size) (addMember ch members) text
      found) :
    ReadsMembers nextId pos members ('\\' :: ch :: text) found where
  passes depth := (Lexis.passes_memberEscape depth ch).append (h.passes depth)
  again s := by
    rw [List.cons_append, List.cons_append, readMembers, h.again]
    simp only [byteLength, Nat.add_assoc]

theorem readMembers_plain {nextId pos : Nat} {members s : List Char} {ch : Char}
    (hSlash : ch ≠ '\\') (hClose : ch ≠ ']') (hCaret : ch ≠ '^') :
    readMembers nextId pos members (ch :: s) =
      readMembers nextId (pos + ch.utf8Size) (addMember ch members) s := by
  rw [readMembers]
  · exact hClose
  · intro h
    exact absurd h hSlash
  · intro _ _ h
    exact absurd h hSlash
  · exact hCaret

theorem ReadsMembers.plain {nextId pos : Nat} {members text found : List Char} {ch : Char}
    (hSlash : ch ≠ '\\') (hClose : ch ≠ ']') (hCaret : ch ≠ '^')
    (h : ReadsMembers nextId (pos + ch.utf8Size) (addMember ch members) text found) :
    ReadsMembers nextId pos members (ch :: text) found where
  passes depth := (Lexis.passes_member hSlash hClose depth).append (h.passes depth)
  again s := by
    rw [List.cons_append, readMembers_plain hSlash hClose hCaret, h.again]
    simp only [byteLength, Nat.add_assoc]

/-- Where no member is read: at the closing bracket, and where the reading is refused, which is at
the end of the pattern, at a backslash that ends it, and at a caret. -/
inductive MembersEnd : List Char → Prop
  | closed (s : List Char) : MembersEnd (']' :: s)
  | missing : MembersEnd []
  | lone : MembersEnd ['\\']
  | caret (s : List Char) : MembersEnd ('^' :: s)

theorem readMembers_ends (nextId pos : Nat) (members rest : List Char) :
    ∃ text found t, rest = text ++ t ∧ ReadsMembers nextId pos members text found ∧
      MembersEnd t := by
  fun_induction readMembers nextId pos members rest with
  | case1 pos members => exact ⟨[], members, [], rfl, .nil _ _ _, .missing⟩
  | case2 pos members rest => exact ⟨[], members, ']' :: rest, rfl, .nil _ _ _, .closed rest⟩
  | case3 pos members => exact ⟨[], members, ['\\'], rfl, .nil _ _ _, .lone⟩
  | case4 pos members ch rest ih =>
    obtain ⟨text, found, t, rfl, hReads, hEnd⟩ := ih
    exact ⟨'\\' :: ch :: text, found, t, rfl, hReads.escaped, hEnd⟩
  | case5 pos members rest => exact ⟨[], members, '^' :: rest, rfl, .nil _ _ _, .caret rest⟩
  | case6 pos members ch rest hClose hLone hEscape hCaret ih =>
    obtain ⟨text, found, t, rfl, hReads, hEnd⟩ := ih
    have hSlash : ch ≠ '\\' := by
      rintro rfl
      cases hRest : text ++ t with
      | nil => exact hLone rfl hRest
      | cons d s => exact hEscape d s rfl hRest
    exact ⟨ch :: text, found, t, rfl, hReads.plain hSlash hClose hCaret, hEnd⟩

/-- The bracket that opens a class, the caret after it and members, up to a place where the reading
could go on in any way, but for a caret after the bracket. -/
structure ReadsClass (c : Cursor) (text : List Char) (negated : Bool) (found t : List Char) :
    Prop where
  lexis : ∀ depth, (Lexis.plain depth).Passes text (.members depth)
  again : ∀ s, (∀ v, s = '^' :: v → ∃ w, t = '^' :: w) → readClass (c.withRest (text ++ s)) =
    (readMembers c.nextId (c.pos + byteLength text) found s).map
      fun (members, c') => (.leaf (.members negated members), c')

theorem readClass_eq (c : Cursor) : readClass c =
    (readMembers (openClass c).2.nextId (openClass c).2.pos [] (openClass c).2.rest).map
      fun (members, c') => (.leaf (.members (openClass c).1 members), c') := by
  unfold readClass
  split <;> rename_i h <;> rw [h] <;> rfl

theorem readsClass_caret {text : List Char} (hRest : c.rest = '[' :: '^' :: s)
    {found : List Char} (h : ReadsMembers c.nextId c.next.next.pos [] text found) (t : List Char) :
    ReadsClass c ('[' :: '^' :: text) true found t where
  lexis depth := .cons rfl
    ((Lexis.passes_member (by decide) (by decide) depth).append (h.passes depth))
  again u _ := by
    have hNext := Cursor.next_rest_of_cons hRest
    have hPos : c.next.next.pos + byteLength text = c.pos + byteLength ('[' :: '^' :: text) := by
      rw [Cursor.next_of_cons hNext, Cursor.next_of_cons hRest, byteLength, byteLength,
        Nat.add_assoc, Nat.add_assoc]
    rw [readClass_eq, openClass_caret (s := text ++ u) rfl, List.cons_append, List.cons_append,
      Cursor.withRest_next hRest, Cursor.withRest_next hNext]
    simp only [Cursor.withRest_rest, Cursor.withRest_nextId, Cursor.withRest_pos,
      Cursor.next_nextId, h.again u, hPos]

theorem readsClass_bare {text found : List Char} (hRest : c.rest = '[' :: text ++ t)
    (hCaret : ∀ v, text ++ t ≠ '^' :: v) (h : ReadsMembers c.nextId c.next.pos [] text found) :
    ReadsClass c ('[' :: text) false found t where
  lexis depth := .cons rfl (h.passes depth)
  again u hu := by
    -- A caret would be the first character after the bracket only if one is there already.
    have hCaret' : ∀ v, text ++ u ≠ '^' :: v := by
      intro v hv
      cases text with
      | nil =>
        obtain ⟨w, rfl⟩ := hu v hv
        exact hCaret w rfl
      | cons ch text =>
        obtain ⟨rfl, -⟩ := List.cons.inj hv
        exact hCaret (text ++ t) rfl
    have hPos : c.next.pos + byteLength text = c.pos + byteLength ('[' :: text) := by
      rw [Cursor.next_of_cons hRest, byteLength, Nat.add_assoc]
    rw [readClass_eq, openClass_bare (s := text ++ u) rfl hCaret', List.cons_append,
      Cursor.withRest_next hRest]
    simp only [Cursor.withRest_rest, Cursor.withRest_nextId, Cursor.withRest_pos,
      Cursor.next_nextId, h.again u, hPos]

theorem readClass_ends (hRest : c.rest = '[' :: s) :
    ∃ text negated found t, c.rest = '[' :: text ++ t ∧
      ReadsClass c ('[' :: text) negated found t ∧ MembersEnd t := by
  by_cases hCaret : ∃ v, s = '^' :: v
  · obtain ⟨v, rfl⟩ := hCaret
    obtain ⟨text, found, t, rfl, hReads, hEnd⟩ :=
      readMembers_ends c.nextId c.next.next.pos [] v
    exact ⟨'^' :: text, true, found, t, hRest, readsClass_caret hRest hReads t, hEnd⟩
  · obtain ⟨text, found, t, rfl, hReads, hEnd⟩ := readMembers_ends c.nextId c.next.pos [] s
    have hBare : ∀ v, text ++ t ≠ '^' :: v := fun v hv => hCaret ⟨v, hv⟩
    exact ⟨text, false, found, t, hRest, readsClass_bare hRest hBare hReads, hEnd⟩

/-- A class that is read takes the text up to its closing bracket. -/
theorem readClass_takes {r : Regex} (hRest : c.rest = '[' :: s) (h : readClass c = .ok (r, c')) :
    ∃ text, Takes readClass c r c' ('[' :: text) ∧
      ∀ depth, (Lexis.plain depth).Passes ('[' :: text) (.plain depth) := by
  obtain ⟨text, negated, found, t, hSplit, ⟨hLexis, hAgain⟩, hEnd⟩ := readClass_ends hRest
  have hWhole := hAgain t fun v hv => ⟨v, hv⟩
  rw [← hSplit, Cursor.withRest_self, h] at hWhole
  cases hEnd with
  | closed u =>
    obtain ⟨rfl, rfl⟩ : r = .leaf (.members negated found) ∧
        c' = ⟨u, c.pos + byteLength ('[' :: text) + ']'.utf8Size, c.nextId⟩ := by
      simpa [readMembers, Except.map] using hWhole
    refine ⟨text ++ [']'], ⟨⟨by simpa using hSplit, ?_⟩, fun v => ?_⟩, fun depth => ?_⟩
    · simp [byteLength, Nat.add_assoc]
    · rw [show '[' :: (text ++ [']']) ++ v = '[' :: text ++ ']' :: v by simp]
      exact hAgain (']' :: v) (by rintro _ ⟨⟩)
    · exact (hLexis depth).append (.cons rfl (.nil _))
  | missing => cases hWhole
  | lone => cases hWhole
  | caret => cases hWhole

/-- A class is refused after members, at the end of the pattern, at a backslash that ends it or at a
caret.  A closing bracket in that place would complete it; a caret is refused whatever comes after
it. -/
theorem readClass_error {f : Failure} (hRest : c.rest = '[' :: s) (h : readClass c = .error f) :
    ∃ text t, c.rest = '[' :: text ++ t ∧ f.cause = .unsupportedSyntax ∧
      f.position = c.pos + byteLength ('[' :: text) ∧
      (∀ depth, (Lexis.plain depth).Passes ('[' :: text) (.members depth)) ∧
      (∀ u, ∃ r c', readClass (c.withRest ('[' :: text ++ ']' :: u)) = .ok (r, c') ∧ c'.rest = u) ∧
      (t = [] ∨ t = ['\\'] ∨ ∃ v, t = '^' :: v ∧
        ∀ u, ∃ stop, readClass (c.withRest ('[' :: text ++ '^' :: u)) =
          .error (.unsupported f.position stop)) := by
  obtain ⟨text, negated, found, t, hSplit, ⟨hLexis, hAgain⟩, hEnd⟩ := readClass_ends hRest
  have hWhole := hAgain t fun v hv => ⟨v, hv⟩
  rw [← hSplit, Cursor.withRest_self, h] at hWhole
  have hMends (u : List Char) :
      ∃ r c', readClass (c.withRest ('[' :: text ++ ']' :: u)) = .ok (r, c') ∧ c'.rest = u := by
    rw [hAgain (']' :: u) (by rintro _ ⟨⟩)]
    exact ⟨_, _, rfl, rfl⟩
  refine ⟨text, t, hSplit, ?_⟩
  cases hEnd with
  | closed => cases hWhole
  | missing =>
    cases hWhole
    exact ⟨rfl, rfl, hLexis, hMends, .inl rfl⟩
  | lone =>
    cases hWhole
    exact ⟨rfl, rfl, hLexis, hMends, .inr (.inl rfl)⟩
  | caret v =>
    cases hWhole
    refine ⟨rfl, rfl, hLexis, hMends, .inr (.inr ⟨v, rfl, fun u => ?_⟩)⟩
    rw [hAgain ('^' :: u) fun _ _ => ⟨v, rfl⟩]
    exact ⟨_, rfl⟩

/-! ## Single characters -/

theorem readEscape_takes {r : Regex} (hRest : c.rest = '\\' :: s)
    (h : readEscape c = .ok (r, c')) :
    ∃ ch, Takes readEscape c r c' ['\\', ch] := by
  unfold readEscape at h
  split at h
  · cases h
  rename_i ch t hChar
  cases h
  refine ⟨ch, (Cursor.passes_next hRest).trans (Cursor.passes_next hChar), fun u => ?_⟩
  simp only [readEscape, List.cons_append, List.nil_append, Cursor.withRest_next hRest,
    Cursor.withRest_rest, Cursor.withRest_next hChar]

/-- An ordinary character stands for itself. -/
theorem readAtomBody_plain {group : Consumer Regex} (hRest : c.rest = ch :: s)
    (hPlain : ch ∉ ['(', '[', '\\', '.', '*', '+', '?', ']', '|']) :
    readAtomBody group c = .ok (.leaf (.only ch), c.next) := by
  simp only [List.mem_cons, List.not_mem_nil, or_false, not_or] at hPlain
  obtain ⟨hOpen, hBracket, hSlash, hDot, hReserved⟩ := hPlain
  unfold readAtomBody
  rw [hRest]
  split
  case h_6 hCons =>
    cases hCons
    rw [if_neg (by simp [hReserved])]
  all_goals simp_all

/-- An atom that is no group takes a text of its own. -/
theorem readAtomBody_takes {group : Consumer Regex} {r : Regex} (hOpen : ∀ s, c.rest ≠ '(' :: s)
    (h : readAtomBody group c = .ok (r, c')) :
    ∃ ch text, Takes (readAtomBody group) c r c' (ch :: text) ∧
      ch ∉ ['*', '+', '?', '|'] ∧
      ∀ depth, (ch = ')' → depth = 0) → (Lexis.plain depth).Passes (ch :: text) (.plain depth) := by
  unfold readAtomBody at h
  split at h
  · cases h
  · rename_i hRest
    exact absurd hRest (hOpen _)
  · rename_i hRest
    obtain ⟨text, hTakes, hLexis⟩ := readClass_takes hRest h
    exact ⟨'[', text, ⟨hTakes.passes, hTakes.again⟩, by decide, fun depth _ => hLexis depth⟩
  · rename_i hRest
    obtain ⟨ch, hTakes⟩ := readEscape_takes hRest h
    exact ⟨'\\', [ch], ⟨hTakes.passes, hTakes.again⟩, by decide,
      fun depth _ => Lexis.passes_escape depth ch⟩
  · rename_i hRest
    cases h
    refine ⟨'.', [], ⟨Cursor.passes_next hRest, fun u => ?_⟩, by decide,
      fun depth _ => Lexis.passes_plain (by simp) depth⟩
    simp only [readAtomBody, List.singleton_append, Cursor.withRest_rest,
      Cursor.withRest_next hRest]
  · rename_i ch t hParen hBracket hSlash hDot hRest
    split at h <;> cases h
    rename_i hReserved
    simp only [not_or] at hReserved
    have hPlain : ch ∉ ['(', '[', '\\', '.', '*', '+', '?', ']', '|'] := by
      simp only [List.mem_cons, List.not_mem_nil, or_false, not_or]
      exact ⟨hParen, hBracket, hSlash, hDot, hReserved⟩
    refine ⟨ch, [], ⟨Cursor.passes_next hRest, fun u => ?_⟩, ?_, fun depth hClose => ?_⟩
    · rw [List.singleton_append, readAtomBody_plain rfl hPlain, Cursor.withRest_next hRest]
    · simp [hReserved]
    · by_cases hUnmatched : ch = ')'
      · rw [hUnmatched, hClose hUnmatched]
        exact Lexis.passes_unmatched
      · refine Lexis.passes_plain (fun d hd => ?_) depth
        rw [List.mem_singleton.1 hd]
        simp only [List.mem_cons, List.not_mem_nil, or_false, not_or]
        exact ⟨hSlash, hBracket, hParen, hUnmatched⟩

end BacktrackRegex
