import BacktrackRegex.Proofs.Pattern.Equations
import BacktrackRegex.Proofs.Pattern.Refusal

/-!
# Reading somewhere else in a pattern

A reader looks at what is left to read and at nothing before it.  The byte offset of its place and
the number of the next group come up in what it gives, but never in what it does.  So a text is read
in the middle of a pattern as it is read for itself: offsets are moved on by those of the place, and
the groups get other numbers.

* `Regex.renumber` — a regex with other numbers on its groups;
* `Cursor.shift`, `Failure.shift`, `Reading.shift` — the same, moved on;
* `readNumber_shift` .. `readPattern_shift` — every reader commutes with that;
* `Parser.Session` — parsers that have been moved about, and have not failed yet;
* `Parser.parse_translated` — a parser without open groups reads as a new parser reads the text that
  is left.
-/

set_option autoImplicit false

namespace BacktrackRegex

/-! ## Other numbers -/

mutual

/-- The regex with the numbers of its capturing groups changed by `f`. -/
def Regex.renumber (f : Nat → Nat) : Regex → Regex
  | .seq items => .seq (itemsRenumber f items)
  | .alt branches => .alt (branchesRenumber f branches)
  | .group id body => .group (id.map f) (body.renumber f)
  | .leaf set => .leaf set

/-- The items of a sequence with the numbers of their capturing groups changed by `f`. -/
def itemsRenumber (f : Nat → Nat) : List (Regex × Quantifier) → List (Regex × Quantifier)
  | [] => []
  | (r, q) :: items => (r.renumber f, q) :: itemsRenumber f items

/-- The branches of an alternation with the numbers of their capturing groups changed by `f`. -/
def branchesRenumber (f : Nat → Nat) : List Regex → List Regex
  | [] => []
  | r :: branches => r.renumber f :: branchesRenumber f branches

end

mutual

theorem Regex.renumber_groupCount (f : Nat → Nat) :
    ∀ r : Regex, (r.renumber f).groupCount = r.groupCount
  | .seq items => itemsRenumber_groupCount f items
  | .alt branches => branchesRenumber_groupCount f branches
  | .group id body => by
    rw [Regex.renumber, Regex.groupCount, Regex.groupCount, Option.isSome_map,
      Regex.renumber_groupCount f body]
  | .leaf _ => rfl

theorem itemsRenumber_groupCount (f : Nat → Nat) : ∀ items : List (Regex × Quantifier),
    itemsGroupCount (itemsRenumber f items) = itemsGroupCount items
  | [] => rfl
  | (r, _) :: items => by
    rw [itemsRenumber, itemsGroupCount, itemsGroupCount, Regex.renumber_groupCount f r,
      itemsRenumber_groupCount f items]

theorem branchesRenumber_groupCount (f : Nat → Nat) : ∀ branches : List Regex,
    branchesGroupCount (branchesRenumber f branches) = branchesGroupCount branches
  | [] => rfl
  | r :: branches => by
    rw [branchesRenumber, branchesGroupCount, branchesGroupCount, Regex.renumber_groupCount f r,
      branchesRenumber_groupCount f branches]

end

mutual

/-- Only the result of both changes shows in the numbers. -/
theorem Regex.renumber_renumber (f g : Nat → Nat) :
    ∀ r : Regex, (r.renumber f).renumber g = r.renumber (g ∘ f)
  | .seq items => congrArg Regex.seq (itemsRenumber_renumber f g items)
  | .alt branches => congrArg Regex.alt (branchesRenumber_renumber f g branches)
  | .group id body => by
    rw [Regex.renumber, Regex.renumber, Regex.renumber, Option.map_map,
      Regex.renumber_renumber f g body]
  | .leaf _ => rfl

theorem itemsRenumber_renumber (f g : Nat → Nat) : ∀ items : List (Regex × Quantifier),
    itemsRenumber g (itemsRenumber f items) = itemsRenumber (g ∘ f) items
  | [] => rfl
  | (r, _) :: items => by
    rw [itemsRenumber, itemsRenumber, itemsRenumber, Regex.renumber_renumber f g r,
      itemsRenumber_renumber f g items]

theorem branchesRenumber_renumber (f g : Nat → Nat) : ∀ branches : List Regex,
    branchesRenumber g (branchesRenumber f branches) = branchesRenumber (g ∘ f) branches
  | [] => rfl
  | r :: branches => by
    rw [branchesRenumber, branchesRenumber, branchesRenumber, Regex.renumber_renumber f g r,
      branchesRenumber_renumber f g branches]

end

/-! ## Other places -/

/-- The same text to read, `n` bytes further on, with the next number increased by `d`. -/
def Cursor.shift (n d : Nat) (c : Cursor) : Cursor := ⟨c.rest, n + c.pos, d + c.nextId⟩

/-- The same failure at another place. -/
def Failure.shift (n d : Nat) (f : Failure) : Failure :=
  { f with position := n + f.position, stop := f.stop.shift n d }

/-- The same outcome at another place, where `g` gives what is read there. -/
def Reading.shift {α : Type} (n d : Nat) (g : α → α) : Reading α → Reading α
  | .error f => .error (f.shift n d)
  | .ok (a, c) => .ok (g a, c.shift n d)

theorem Reading.shift_map {α β : Type} {n d : Nat} {g : α → α} {g' : β → β} {m m' : α → β}
    {result : Reading α} (h : ∀ a, m' (g a) = g' (m a)) :
    ((Reading.shift n d g result).map fun (a, c) => (m' a, c)) =
      Reading.shift n d g' (result.map fun (a, c) => (m a, c)) := by
  cases result with
  | error f => rfl
  | ok result =>
    show Except.ok (m' (g result.1), _) = Except.ok (g' (m result.1), _)
    rw [h]

theorem Reading.shift_bind {α β : Type} {n d : Nat} {g : α → α} {g' : β → β}
    {result : Reading α} {k k' : α × Cursor → Reading β}
    (h : ∀ a c, result = .ok (a, c) → k' (g a, c.shift n d) = Reading.shift n d g' (k (a, c))) :
    (Reading.shift n d g result).bind k' = Reading.shift n d g' (result.bind k) := by
  cases result with
  | error f => rfl
  | ok result => exact h result.1 result.2 rfl

/-- A reader of regexes that reads the same at all places, but for the numbers. -/
def Consumer.Shifts (n d : Nat) (atom : Consumer Regex) : Prop :=
  ∀ c : Cursor, atom.read (c.shift n d) = Reading.shift n d (Regex.renumber (d + ·)) (atom.read c)

section

variable (n d : Nat)

@[simp] theorem Cursor.shift_rest (c : Cursor) : (c.shift n d).rest = c.rest := rfl

@[simp] theorem Cursor.shift_next (c : Cursor) : (c.shift n d).next = c.next.shift n d := by
  cases hRest : c.rest with
  | nil =>
    unfold Cursor.next
    simp only [shift_rest, hRest]
  | cons ch rest =>
    rw [next_of_cons hRest, next_of_cons ((shift_rest n d c).trans hRest)]
    simp only [shift, Nat.add_assoc]

/-! ## Quantifiers -/

theorem readNumber_shift (c : Cursor) :
    readNumber (c.shift n d) = Reading.shift n d id (readNumber c) := by
  unfold readNumber
  rw [Cursor.shift_rest]
  split
  · rfl
  · dsimp only [Cursor.shift]
    rw [Nat.add_assoc]
    split <;> rfl

theorem readUpperBound_shift (min : UInt32) (c : Cursor) :
    readUpperBound min (c.shift n d) = Reading.shift n d id (readUpperBound min c) := by
  unfold readUpperBound
  rw [Cursor.shift_rest]
  split
  · rw [Cursor.shift_next, readNumber_shift]
  · rfl

theorem readBraces_shift (c : Cursor) :
    readBraces (c.shift n d) = Reading.shift n d id (readBraces c) := by
  unfold readBraces
  rw [Cursor.shift_next, readNumber_shift]
  cases readNumber c.next with
  | error f => rfl
  | ok result =>
    obtain ⟨min, c₁⟩ := result
    cases min with
    | none => rfl
    | some min =>
      simp only [Reading.shift, id_eq, readUpperBound_shift]
      cases readUpperBound min c₁ with
      | error f => rfl
      | ok result =>
        obtain ⟨max, c₂⟩ := result
        simp only [Cursor.shift_rest, Cursor.shift_next]
        split
        · split <;> rfl
        · rfl

theorem readQuantifier_shift (c : Cursor) :
    readQuantifier (c.shift n d) = Reading.shift n d id (readQuantifier c) := by
  unfold readQuantifier
  rw [Cursor.shift_rest, Cursor.shift_next]
  split
  case h_4 => exact readBraces_shift n d c
  all_goals rfl

/-! ## Characters -/

theorem readMembers_shift (nextId pos : Nat) (members rest : List Char) :
    readMembers (d + nextId) (n + pos) members rest =
      Reading.shift n d id (readMembers nextId pos members rest) := by
  fun_induction readMembers nextId pos members rest with
  | case1 => rfl
  | case2 => rw [readMembers, Nat.add_assoc]; rfl
  | case3 => rw [readMembers, Nat.add_assoc]; rfl
  | case4 pos members ch rest ih =>
    rw [readMembers, Nat.add_assoc, Nat.add_assoc, ← Nat.add_assoc pos, ih]
  | case5 => rw [readMembers, Nat.add_assoc]; rfl
  | case6 pos members ch rest hClose hLone hEscape hCaret ih =>
    rw [readMembers, Nat.add_assoc, ih]
    all_goals assumption

theorem openClass_shift (c : Cursor) :
    openClass (c.shift n d) = ((openClass c).1, (openClass c).2.shift n d) := by
  unfold openClass
  rw [Cursor.shift_next, Cursor.shift_rest]
  split
  · rw [Cursor.shift_next]
  · rfl

theorem readClass_shift (c : Cursor) : readClass (c.shift n d) =
    Reading.shift n d (Regex.renumber (d + ·)) (readClass c) := by
  have hMembers : readMembers ((openClass c).2.shift n d).nextId ((openClass c).2.shift n d).pos []
      ((openClass c).2.shift n d).rest = Reading.shift n d id
        (readMembers (openClass c).2.nextId (openClass c).2.pos [] (openClass c).2.rest) :=
    readMembers_shift n d _ _ _ _
  unfold readClass
  rw [openClass_shift]
  dsimp only
  rw [hMembers]
  cases readMembers (openClass c).2.nextId (openClass c).2.pos [] (openClass c).2.rest with
  | error f => rfl
  | ok result => rfl

theorem readEscape_shift (c : Cursor) : readEscape (c.shift n d) =
    Reading.shift n d (Regex.renumber (d + ·)) (readEscape c) := by
  unfold readEscape
  rw [Cursor.shift_next, Cursor.shift_rest]
  split
  · rfl
  · rw [Cursor.shift_next]
    rfl

end

/-! ## Regexes -/

section

variable {n d : Nat} {nested : Bool} {atom : Consumer Regex}

theorem readItems_shift (hAtom : atom.Shifts n d) (c : Cursor) :
    readItems nested atom (c.shift n d) =
      Reading.shift n d (itemsRenumber (d + ·)) (readItems nested atom c) := by
  induction c using readItems_induction nested atom with
  | ends c hEnds =>
    rw [readItems.eq_def nested atom c, if_pos hEnds, readItems, Cursor.shift_rest, if_pos hEnds]
    rfl
  | goes c hGoes ih =>
    rw [readItems_of_goes hGoes, readItems_of_goes ((Cursor.shift_rest n d c).symm ▸ hGoes), hAtom]
    apply Reading.shift_bind
    intro r c₁ hFirst
    dsimp only
    rw [readQuantifier_shift]
    apply Reading.shift_bind
    intro q c₂ hQuantifier
    dsimp only
    rw [ih r c₁ q c₂ hFirst hQuantifier]
    exact Reading.shift_map fun items => rfl

theorem readSequence_shift (hAtom : atom.Shifts n d) (c : Cursor) :
    readSequence nested atom (c.shift n d) =
      Reading.shift n d (Regex.renumber (d + ·)) (readSequence nested atom c) := by
  rw [readSequence_eq, readSequence_eq, readItems_shift hAtom]
  exact Reading.shift_map fun items => rfl

theorem readBranches_shift (hAtom : atom.Shifts n d) (c : Cursor) :
    readBranches nested atom (c.shift n d) =
      Reading.shift n d (branchesRenumber (d + ·)) (readBranches nested atom c) := by
  induction c using readBranches_induction nested atom with
  | bare c hBare =>
    rw [readBranches_of_bare hBare, readBranches_of_bare (c := c.shift n d) hBare]
    rfl
  | bar c s hRest ih =>
    rw [readBranches_of_bar hRest, readBranches_of_bar (c := c.shift n d) hRest,
      Cursor.shift_next, readSequence_shift hAtom]
    apply Reading.shift_bind
    intro r c₁ hBranch
    dsimp only
    rw [ih r c₁ hBranch]
    exact Reading.shift_map fun branches => rfl

theorem Regex.renumber_alternation (f : Nat → Nat) (first : Regex) (branches : List Regex) :
    (first.alternation branches).renumber f =
      (first.renumber f).alternation (branchesRenumber f branches) := by
  cases branches <;> rfl

theorem readAlternation_shift (hAtom : atom.Shifts n d) (c : Cursor) :
    readAlternation nested atom (c.shift n d) =
      Reading.shift n d (Regex.renumber (d + ·)) (readAlternation nested atom c) := by
  rw [readAlternation_eq, readAlternation_eq, readSequence_shift hAtom]
  apply Reading.shift_bind
  intro first c₁ _
  dsimp only
  rw [readBranches_shift hAtom]
  exact Reading.shift_map fun branches => (first.renumber_alternation _ branches).symm

theorem openGroup_shift (c : Cursor) : openGroup (c.shift n d) =
    ((openGroup c).1.map (d + ·), (openGroup c).2.shift n d) := by
  unfold openGroup
  rw [Cursor.shift_next, Cursor.shift_rest]
  split
  · simp only [Cursor.shift_next, Option.map_none]
  · rfl

theorem readGroup_shifts (hAtom : atom.Shifts n d) : (readGroup atom).Shifts n d := by
  intro c
  change readGroupBody atom (c.shift n d) = Reading.shift n d _ (readGroupBody atom c)
  unfold readGroupBody
  rw [openGroup_shift, readAlternation_shift hAtom]
  cases readAlternation true atom (openGroup c).2 with
  | error f => rfl
  | ok result =>
    obtain ⟨body, c₁⟩ := result
    simp only [Reading.shift, Cursor.shift_rest, Cursor.shift_next]
    split <;> rfl

theorem readAtomWith_shifts {group : Consumer Regex} (hGroup : group.Shifts n d) :
    (readAtomWith group).Shifts n d := by
  intro c
  change readAtomBody group (c.shift n d) = Reading.shift n d _ (readAtomBody group c)
  unfold readAtomBody
  rw [Cursor.shift_rest, Cursor.shift_next]
  split
  · rfl
  · exact hGroup c
  · exact readClass_shift n d c
  · exact readEscape_shift n d c
  · rfl
  · split <;> rfl

theorem readAtom_shifts (levels : Nat) : (readAtom levels).Shifts n d := by
  induction levels with
  | zero => exact readAtomWith_shifts fun c => rfl
  | succ levels ih => exact readAtomWith_shifts (readGroup_shifts ih)

theorem readPattern_shift (openGroups : Nat) (c : Cursor) :
    readPattern openGroups (c.shift n d) =
      Reading.shift n d (Regex.renumber (d + ·)) (readPattern openGroups c) := by
  rw [readPattern_eq, readPattern_eq, readAlternation_shift (readAtom_shifts _)]
  apply Reading.shift_bind
  intro r c₁ _
  dsimp only [atEnd]
  rw [Cursor.shift_rest]
  split <;> rfl

end

/-! ## Parsers -/

namespace Parser

variable {p p' : Parser} {c : Cursor} {before after : List Char}

/-- The outcome of a reading, with the parser as the reading leaves it. -/
def outcome (p : Parser) : Reading Regex → Except CompileError Regex × Parser
  | .error f => (.error (f.toCompileError p.pattern),
      { p with
        pos := f.stop.pos
        nextId := f.stop.nextId
        openGroups := p.openGroups + f.openGroups })
  | .ok (r, c) => (.ok r, { p with pos := c.pos, nextId := c.nextId })

theorem parse_of_cursor (h : p.cursor? = some c) :
    p.parse = .ok (p.outcome (readPattern p.openGroups c)) := by
  unfold parse
  rw [h]
  cases hRead : readPattern p.openGroups c with
  | error f => simp only [hRead, outcome]
  | ok result => simp only [hRead, outcome]

theorem cursor?_eq_some_iff : p.cursor? = some c ↔ ∃ before,
    p.pattern.toList = before ++ c.rest ∧ p.pos = byteLength before ∧
      c = ⟨c.rest, p.pos, p.nextId⟩ := by
  unfold cursor?
  rw [Option.map_eq_some_iff]
  constructor
  · rintro ⟨rest, hDrop, rfl⟩
    obtain ⟨before, hSplit, hPos⟩ := dropBytes?_eq_some_iff.1 hDrop
    exact ⟨before, hSplit, hPos, rfl⟩
  · rintro ⟨before, hSplit, hPos, hCursor⟩
    exact ⟨c.rest, dropBytes?_eq_some_iff.2 ⟨before, hSplit, hPos⟩, hCursor.symm⟩

/-- On a character boundary, a parser gives what is read at offset zero, moved to its place. -/
theorem parse_eq (before after : List Char) (hSplit : p.pattern.toList = before ++ after)
    (hPos : p.pos = byteLength before) :
    p.parse = .ok (p.outcome (Reading.shift p.pos p.nextId (Regex.renumber (p.nextId + ·))
      (readPattern p.openGroups ⟨after, 0, 0⟩))) := by
  have hCursor : p.cursor? = some (Cursor.shift p.pos p.nextId ⟨after, 0, 0⟩) :=
    cursor?_eq_some_iff.2 ⟨before, hSplit, hPos, rfl⟩
  rw [parse_of_cursor hCursor, readPattern_shift]

/-- What a parser without open groups comes to, and how it is left, told from what a new parser of
the text that is left comes to. -/
def moved (p : Parser) :
    Except CompileError Regex × Parser → Except CompileError Regex × Parser
  | (.ok r, p₀) => (.ok (r.renumber fun id => id + p.nextId - 1),
      { p with pos := p.pos + p₀.pos, nextId := p.nextId + r.groupCount, openGroups := 0 })
  | (.error e, p₀) => (.error { e with pattern := p.pattern, position := p.pos + e.position },
      { p with
        pos := p.pos + p₀.pos
        nextId := p₀.nextId + p.nextId - 1
        openGroups := p₀.openGroups })

/-- A reading at offset zero, moved to where `p` stands, is what comes of it where a new parser
stands, moved on from there. -/
theorem outcome_shift (hOpen : p.openGroups = 0) (pattern : String) {result : Reading Regex}
    (hNumbers : ∀ r c, result = .ok (r, c) → c.nextId = r.groupCount) :
    p.outcome (Reading.shift p.pos p.nextId (Regex.renumber (p.nextId + ·)) result) =
      p.moved (({ pattern } : Parser).outcome
        (Reading.shift 0 1 (Regex.renumber (1 + ·)) result)) := by
  cases result with
  | error f =>
    have hNext : 1 + f.stop.nextId + p.nextId - 1 = p.nextId + f.stop.nextId := by omega
    simp [Reading.shift, outcome, moved, Failure.shift, Cursor.shift, Failure.toCompileError, hOpen,
      hNext]
  | ok result =>
    obtain ⟨r, c⟩ := result
    have hNext : c.nextId = r.groupCount := hNumbers r c rfl
    have hIds : ((fun id => id + p.nextId - 1) ∘ (1 + ·)) = (p.nextId + ·) := by
      funext id
      show 1 + id + p.nextId - 1 = p.nextId + id
      omega
    simp [Reading.shift, outcome, moved, Cursor.shift, hOpen, hNext, Regex.renumber_renumber, hIds,
      Regex.renumber_groupCount]

/-- The place where a reading from offset zero leaves its parser is a character boundary. -/
theorem outcome_reaches {result : Reading Regex} (hLocated : Located ⟨after, 0, 0⟩ result)
    (g : Regex → Regex) (d : Nat) :
    ∃ read left, after = read ++ left ∧
      (p.outcome (Reading.shift 0 d g result)).2.pos = byteLength read := by
  cases hLocated with
  | ok hReaches =>
    obtain ⟨read, hRest, hPos⟩ := hReaches
    exact ⟨read, _, hRest, (Nat.zero_add _).trans (hPos.trans (Nat.zero_add _))⟩
  | error hFailure =>
    obtain ⟨⟨read, hRest, hPos⟩, -⟩ := hFailure
    exact ⟨read, _, hRest, (Nat.zero_add _).trans (hPos.trans (Nat.zero_add _))⟩

theorem moved_pos (p : Parser) (result : Except CompileError Regex × Parser) :
    (p.moved result).2.pos = p.pos + result.2.pos := by
  obtain ⟨r | e, p₀⟩ := result <;> rfl

/-- A parser without open groups reads on as a new parser reads the text that is left. -/
theorem parse_moved (hSplit : p.pattern.toList = before ++ after)
    (hPos : p.pos = byteLength before) (hOpen : p.openGroups = 0) :
    ∃ result read left, ({ pattern := String.ofList after } : Parser).parse = .ok result ∧
      p.parse = .ok (p.moved result) ∧ after = read ++ left ∧
      (p.moved result).2.pos = byteLength (before ++ read) := by
  have hNew : ({ pattern := String.ofList after } : Parser).parse = _ :=
    parse_eq [] after String.toList_ofList rfl
  have hNumbers (r : Regex) (c : Cursor) (hRead : readPattern 0 ⟨after, 0, 0⟩ = .ok (r, c)) :
      c.nextId = r.groupCount :=
    (readPattern_reads hRead).next.trans (Nat.zero_add _)
  obtain ⟨read, left, hRest, hReaches⟩ :=
    outcome_reaches (p := { pattern := String.ofList after }) (readPattern_located 0 ⟨after, 0, 0⟩)
      (Regex.renumber (1 + ·)) 1
  refine ⟨_, read, left, hNew, ?_, hRest, ?_⟩
  · rw [parse_eq before after hSplit hPos, hOpen, outcome_shift hOpen _ hNumbers]
  · rw [moved_pos, hPos, byteLength_append]
    exact congrArg _ hReaches

/-! ## Sessions -/

/-- A parser of a pattern that has been moved about and asked any number of times, and has not
failed yet. -/
inductive Session (pattern : String) : Parser → Prop
  | new : Session pattern { pattern }
  | seek {p : Parser} (h : Session pattern p) (pos : Nat) : Session pattern (p.seek pos)
  | parse {p p' : Parser} {r : Regex} (h : Session pattern p)
    (hParse : p.parse = .ok (.ok r, p')) : Session pattern p'

/-- A parser that answers stands on a character boundary. -/
theorem boundary_of_parse {result : Except CompileError Regex × Parser}
    (h : p.parse = .ok result) :
    ∃ before after, p.pattern.toList = before ++ after ∧ p.pos = byteLength before := by
  cases hCursor : p.cursor? with
  | none =>
    rw [parse, hCursor] at h
    cases h
  | some c =>
    obtain ⟨before, hSplit, hPos, -⟩ := cursor?_eq_some_iff.1 hCursor
    exact ⟨before, c.rest, hSplit, hPos⟩

theorem Session.spec {pattern : String} (h : Session pattern p) :
    p.pattern = pattern ∧ p.openGroups = 0 := by
  induction h with
  | new => exact ⟨rfl, rfl⟩
  | seek h pos ih => exact ih
  | @parse p p' r h hParse ih =>
    obtain ⟨hPattern, hOpen⟩ := ih
    obtain ⟨before, after, hSplit, hPos⟩ := boundary_of_parse hParse
    obtain ⟨⟨_ | r₀, p₀⟩, read, left, -, hMoved, -⟩ := parse_moved hSplit hPos hOpen
    · cases hMoved.symm.trans hParse
    · cases hMoved.symm.trans hParse
      exact ⟨hPattern, rfl⟩

/-- Reading does not depend on where it begins.  A parser without open groups that stands on a
character boundary answers as a new parser of the text that is left does, with its numbers and
places moved on, and is left on a character boundary again.  So is every answer of a parser that has
been moved about, as long as none of its answers was an error. -/
theorem parse_translated (pattern : String) :
    (∀ (p : Parser) (before after : List Char), p.pattern = pattern →
      pattern.toList = before ++ after → p.pos = byteLength before → p.openGroups = 0 →
      ∃ result read left, ({ pattern := String.ofList after } : Parser).parse = .ok result ∧
        p.parse = .ok (p.moved result) ∧ after = read ++ left ∧
        (p.moved result).2.pos = byteLength (before ++ read)) ∧
    ∀ p result, Session pattern p → p.parse = .ok result →
      ∃ before after result₀, pattern.toList = before ++ after ∧ p.pos = byteLength before ∧
        ({ pattern := String.ofList after } : Parser).parse = .ok result₀ ∧
        result = p.moved result₀ := by
  constructor
  · rintro p before after rfl hSplit hPos hOpen
    exact parse_moved hSplit hPos hOpen
  · intro p result hSession hParse
    obtain ⟨rfl, hOpen⟩ := hSession.spec
    obtain ⟨before, after, hSplit, hPos⟩ := boundary_of_parse hParse
    obtain ⟨result₀, -, -, hNew, hMoved, -⟩ := parse_moved hSplit hPos hOpen
    exact ⟨before, after, result₀, hSplit, hPos, hNew, Except.ok.inj (hParse.symm.trans hMoved)⟩

/-- After `é(a)` has been read, its group is read once more, from byte two on and with the next
number. -/
theorem parse_translated_again :
    (∃ result read left, ({ pattern := "(a)" } : Parser).parse = .ok result ∧
      ({ pattern := "é(a)", pos := 2, nextId := 2 } : Parser).parse =
        .ok (moved { pattern := "é(a)", pos := 2, nextId := 2 } result) ∧
      ['(', 'a', ')'] = read ++ left ∧
      (moved { pattern := "é(a)", pos := 2, nextId := 2 } result).2.pos =
        byteLength (['é'] ++ read)) ∧
    ∃ p result, Session "é(a)" p ∧ p.nextId = 2 ∧ p.parse = .ok result ∧
      ∃ before after result₀, "é(a)".toList = before ++ after ∧ p.pos = byteLength before ∧
        ({ pattern := String.ofList after } : Parser).parse = .ok result₀ ∧
        result = p.moved result₀ := by
  have hAgain := (parse_translated "é(a)").1 { pattern := "é(a)", pos := 2, nextId := 2 } ['é']
    ['(', 'a', ')'] rfl rfl rfl rfl
  refine ⟨hAgain, ?_⟩
  have hFirst : (({ pattern := "é(a)" } : Parser).parse.toOption.map fun result =>
      (result.1.isOk, result.2)) = some (true, { pattern := "é(a)", pos := 5, nextId := 2 }) := by
    decide +kernel
  obtain ⟨⟨r | r, p⟩, hFirst, hLeft⟩ := Option.map_eq_some_iff.1 hFirst
  · cases hLeft
  · cases hLeft
    have hSession := (Session.new.parse (toOption_eq_some_iff.1 hFirst)).seek 2
    obtain ⟨result, -, -, -, hParse, -⟩ := hAgain
    exact ⟨_, _, hSession, rfl, hParse, (parse_translated "é(a)").2 _ _ hSession hParse⟩

end Parser

end BacktrackRegex
