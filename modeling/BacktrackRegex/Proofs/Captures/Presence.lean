import BacktrackRegex.Captures.Resolve
import BacktrackRegex.Proofs.Captures.Numbering
import BacktrackRegex.Proofs.Trace.Shape

/-!
# Which groups take part in a match

A group is present in a trace if the way to it leads only through items with an iteration, the last
one of which is gone into, and through branches that were taken.  The walk that collects the spans
never looks at such a way; it has to put each of them in the place of its number by padding whatever
it passes by.

* `Regex.Present` — the group is present, with a span;
* `Regex.FitsFrom` — the walk finds what it asks for wherever it looks;
* `Lists` — from a given number on, a list of spans holds those of some groups at their places;
* `Regex.groupSpans_collects` — the walk succeeds exactly if that is so, and then gives the spans of
  the groups that are present;
* `Regex.groupSpans_spec` — of a regex numbered in order and a trace of its shape that is so.
-/

set_option autoImplicit false

namespace BacktrackRegex

/-! ## Presence -/

/-- Group number `k` is present in the trace, and `s` is its span there. -/
inductive Regex.Present : Regex → Trace → Nat → Span → Prop
  /-- The group itself. -/
  | here {k : Nat} {body : Regex} {s : Span} {t : Trace} :
    Present (.group (some k) body) (.group s t) k s
  /-- A group inside a group. -/
  | group {id : Option Nat} {body : Regex} {span : Span} {t : Trace} {k : Nat} {s : Span}
    (h : Present body t k s) : Present (.group id body) (.group span t) k s
  /-- A group in the last iteration of an item. -/
  | item {items : List (Regex × Quantifier)} {span : Span} {repetitions : List (Repetition Trace)}
    {i : Nat} {r : Regex} {q : Quantifier} {repetition : Repetition Trace} {t : Trace} {k : Nat}
    {s : Span} (hItem : items[i]? = some (r, q)) (hRepetition : repetitions[i]? = some repetition)
    (hLast : repetition.iterations.getLast? = some t) (h : Present r t k s) :
    Present (.seq items) (.seq span repetitions) k s
  /-- A group in the branch that was taken. -/
  | branch {branches : List Regex} {b : Nat} {r : Regex} {t : Trace} {k : Nat} {s : Span}
    (hBranch : branches[b]? = some r) (h : Present r t k s) : Present (.alt branches) (.alt b t) k s

/-- The group is present in the last iteration of one of the items. -/
def ItemsPresent (items : List (Regex × Quantifier)) (repetitions : List (Repetition Trace))
    (k : Nat) (s : Span) : Prop :=
  ∃ (i : Nat) (r : Regex) (q : Quantifier) (repetition : Repetition Trace) (t : Trace),
    items[i]? = some (r, q) ∧ repetitions[i]? = some repetition ∧
      repetition.iterations.getLast? = some t ∧ r.Present t k s

/-- The group is present in the branch of this number. -/
def BranchPresent (branches : List Regex) (b : Nat) (t : Trace) (k : Nat) (s : Span) : Prop :=
  ∃ r, branches[b]? = some r ∧ r.Present t k s

section

variable {k : Nat} {s span : Span} {t : Trace} {r : Regex}

theorem present_seq_iff {items : List (Regex × Quantifier)}
    {repetitions : List (Repetition Trace)} :
    (Regex.seq items).Present (.seq span repetitions) k s ↔
      ItemsPresent items repetitions k s := by
  constructor
  · intro h
    cases h with
    | item hItem hRepetition hLast h => exact ⟨_, _, _, _, _, hItem, hRepetition, hLast, h⟩
  · rintro ⟨i, r, q, repetition, t, hItem, hRepetition, hLast, h⟩
    exact .item hItem hRepetition hLast h

theorem present_alt_iff {branches : List Regex} {b : Nat} :
    (Regex.alt branches).Present (.alt b t) k s ↔ BranchPresent branches b t k s := by
  constructor
  · intro h
    cases h with
    | branch hBranch h => exact ⟨_, hBranch, h⟩
  · rintro ⟨r, hBranch, h⟩
    exact .branch hBranch h

theorem present_group_iff {id : Option Nat} {body : Regex} :
    (Regex.group id body).Present (.group span t) k s ↔
      (id = some k ∧ s = span) ∨ body.Present t k s := by
  constructor
  · intro h
    cases h with
    | here => exact .inl ⟨rfl, rfl⟩
    | group h => exact .inr h
  · rintro (⟨rfl, rfl⟩ | h)
    · exact .here
    · exact .group h

theorem itemsPresent_cons {q : Quantifier} {items : List (Regex × Quantifier)}
    {repetition : Repetition Trace} {repetitions : List (Repetition Trace)} :
    ItemsPresent ((r, q) :: items) (repetition :: repetitions) k s ↔
      (∃ t, repetition.iterations.getLast? = some t ∧ r.Present t k s) ∨
        ItemsPresent items repetitions k s := by
  constructor
  · rintro ⟨i, r', q', repetition', t, hItem, hRepetition, hLast, h⟩
    cases i with
    | zero =>
      cases hItem
      cases hRepetition
      exact .inl ⟨t, hLast, h⟩
    | succ i => exact .inr ⟨i, r', q', repetition', t, hItem, hRepetition, hLast, h⟩
  · rintro (⟨t, hLast, h⟩ | ⟨i, r', q', repetition', t, hItem, hRepetition, hLast, h⟩)
    · exact ⟨0, r, q, repetition, t, rfl, rfl, hLast, h⟩
    · exact ⟨i + 1, r', q', repetition', t, hItem, hRepetition, hLast, h⟩

end

/-! ## Where the walk looks -/

/-- The trace is as the walk over the regex wants it where the walk looks, if it sets out with
`next` entries in its list: what has the shape of the regex are the last iteration of each item, the
branch that was taken and the body of each group, and the number of a capturing group is the length
that the list has got when the group comes up. -/
inductive Regex.FitsFrom : Regex → Nat → Trace → Prop
  | leaf {set : CharSet} {next : Nat} {span : Span} : FitsFrom (.leaf set) next (.char span)
  | bare {body : Regex} {next : Nat} {span : Span} {t : Trace} (h : FitsFrom body next t) :
    FitsFrom (.group none body) next (.group span t)
  | capturing {body : Regex} {next : Nat} {span : Span} {t : Trace}
    (h : FitsFrom body (next + 1) t) : FitsFrom (.group (some next) body) next (.group span t)
  /-- The branches before the one that was taken have an entry for each of their groups. -/
  | alt {branches : List Regex} {next b : Nat} {r : Regex} {t : Trace}
    (hBranch : branches[b]? = some r)
    (h : FitsFrom r (next + branchesGroupCount (branches.take b)) t) :
    FitsFrom (.alt branches) next (.alt b t)
  /-- So have the items before, whether they have an iteration or not. -/
  | seq {items : List (Regex × Quantifier)} {next : Nat} {span : Span}
    {repetitions : List (Repetition Trace)} (hLength : items.length = repetitions.length)
    (hItems : ∀ (i : Nat) (r : Regex) (q : Quantifier) (repetition : Repetition Trace) (t : Trace),
      items[i]? = some (r, q) → repetitions[i]? = some repetition →
      repetition.iterations.getLast? = some t →
      FitsFrom r (next + itemsGroupCount (items.take i)) t) :
    FitsFrom (.seq items) next (.seq span repetitions)

/-- There is a repetition for each item, and the last iteration of each is as the walk wants it. -/
def ItemsFitFrom (items : List (Regex × Quantifier)) (next : Nat)
    (repetitions : List (Repetition Trace)) : Prop :=
  items.length = repetitions.length ∧
    ∀ (i : Nat) (r : Regex) (q : Quantifier) (repetition : Repetition Trace) (t : Trace),
      items[i]? = some (r, q) → repetitions[i]? = some repetition →
      repetition.iterations.getLast? = some t →
      r.FitsFrom (next + itemsGroupCount (items.take i)) t

/-- There is a branch of this number, and the trace is as the walk wants it there. -/
def BranchFitsFrom (branches : List Regex) (next b : Nat) (t : Trace) : Prop :=
  ∃ r, branches[b]? = some r ∧ r.FitsFrom (next + branchesGroupCount (branches.take b)) t

section

variable {next : Nat} {span : Span} {t : Trace} {r : Regex}

theorem fitsFrom_seq_iff {items : List (Regex × Quantifier)}
    {repetitions : List (Repetition Trace)} :
    (Regex.seq items).FitsFrom next (.seq span repetitions) ↔
      ItemsFitFrom items next repetitions := by
  constructor
  · intro h
    cases h with
    | seq hLength hItems => exact ⟨hLength, hItems⟩
  · rintro ⟨hLength, hItems⟩
    exact .seq hLength hItems

theorem fitsFrom_alt_iff {branches : List Regex} {b : Nat} :
    (Regex.alt branches).FitsFrom next (.alt b t) ↔ BranchFitsFrom branches next b t := by
  constructor
  · intro h
    cases h with
    | alt hBranch h => exact ⟨_, hBranch, h⟩
  · rintro ⟨r, hBranch, h⟩
    exact .alt hBranch h

theorem fitsFrom_bare_iff {body : Regex} :
    (Regex.group none body).FitsFrom next (.group span t) ↔ body.FitsFrom next t := by
  constructor
  · intro h
    cases h with
    | bare h => exact h
  · exact .bare

theorem fitsFrom_capturing_iff {id : Nat} {body : Regex} :
    (Regex.group (some id) body).FitsFrom next (.group span t) ↔
      id = next ∧ body.FitsFrom (next + 1) t := by
  constructor
  · intro h
    cases h with
    | capturing h => exact ⟨rfl, h⟩
  · rintro ⟨rfl, h⟩
    exact .capturing h

theorem itemsFitFrom_cons {q : Quantifier} {items : List (Regex × Quantifier)}
    {repetition : Repetition Trace} {repetitions : List (Repetition Trace)} :
    ItemsFitFrom ((r, q) :: items) next (repetition :: repetitions) ↔
      (∀ t, repetition.iterations.getLast? = some t → r.FitsFrom next t) ∧
        ItemsFitFrom items (next + r.groupCount) repetitions := by
  constructor
  · rintro ⟨hLength, hItems⟩
    refine ⟨fun t hLast => hItems 0 r q repetition t rfl rfl hLast, Nat.succ.inj hLength, ?_⟩
    intro i r' q' repetition' t hItem hRepetition hLast
    have hFits := hItems (i + 1) r' q' repetition' t hItem hRepetition hLast
    rwa [List.take_succ_cons, itemsGroupCount, ← Nat.add_assoc] at hFits
  · rintro ⟨hFirst, hLength, hItems⟩
    refine ⟨congrArg Nat.succ hLength, ?_⟩
    rintro (_ | i) r' q' repetition' t hItem hRepetition hLast
    · cases hItem
      cases hRepetition
      exact hFirst t hLast
    · rw [List.take_succ_cons, itemsGroupCount, ← Nat.add_assoc]
      exact hItems i r' q' repetition' t hItem hRepetition hLast

theorem branchFitsFrom_zero {branches : List Regex} :
    BranchFitsFrom (r :: branches) next 0 t ↔ r.FitsFrom next t := by
  simp [BranchFitsFrom, branchesGroupCount]

theorem branchFitsFrom_succ {branches : List Regex} {b : Nat} :
    BranchFitsFrom (r :: branches) next (b + 1) t ↔
      BranchFitsFrom branches (next + r.groupCount) b t := by
  simp [BranchFitsFrom, branchesGroupCount, Nat.add_assoc]

end

/-! ## Spans at their places -/

/-- The spans, the first of which has the number `next`, are those that `P` gives to the numbers. -/
def Lists (next : Nat) (spans : List (Option Span)) (P : Nat → Span → Prop) : Prop :=
  ∀ k s, P k s ↔ ∃ i, k = next + i ∧ spans[i]? = some (some s)

namespace Lists

variable {next : Nat} {spans spans' : List (Option Span)} {P Q : Nat → Span → Prop}

theorem congr (h : Lists next spans P) (hPQ : ∀ k s, Q k s ↔ P k s) : Lists next spans Q :=
  fun k s => (hPQ k s).trans (h k s)

theorem absent (next count : Nat) : Lists next (absentGroups count) fun _ _ => False := by
  intro k s
  refine iff_of_false id ?_
  rintro ⟨i, -, hAt⟩
  have hMem : some s ∈ List.replicate count none := List.mem_of_getElem? hAt
  cases List.eq_of_mem_replicate hMem

theorem append (h : Lists next spans P) (h' : Lists (next + spans.length) spans' Q) :
    Lists next (spans ++ spans') fun k s => P k s ∨ Q k s := by
  intro k s
  show P k s ∨ Q k s ↔ _
  rw [h k s, h' k s]
  constructor
  · rintro (⟨i, rfl, hAt⟩ | ⟨i, rfl, hAt⟩)
    · refine ⟨i, rfl, ?_⟩
      rwa [List.getElem?_append_left (List.getElem?_eq_some_iff.1 hAt).1]
    · refine ⟨spans.length + i, Nat.add_assoc _ _ _, ?_⟩
      rwa [List.getElem?_append_right (Nat.le_add_right _ _), Nat.add_sub_cancel_left]
  · rintro ⟨i, rfl, hAt⟩
    rcases Nat.lt_or_ge i spans.length with hLt | hGe
    · rw [List.getElem?_append_left hLt] at hAt
      exact .inl ⟨i, rfl, hAt⟩
    · rw [List.getElem?_append_right hGe] at hAt
      exact .inr ⟨i - spans.length, by omega, hAt⟩

theorem cons {span : Span} (h : Lists (next + 1) spans P) :
    Lists next (some span :: spans) fun k s => (k = next ∧ s = span) ∨ P k s := by
  have hHead : Lists next [some span] fun k s => k = next ∧ s = span := by
    intro k s
    constructor
    · rintro ⟨rfl, rfl⟩
      exact ⟨0, rfl, rfl⟩
    · rintro ⟨i, rfl, hAt⟩
      cases i with
      | zero =>
        cases hAt
        exact ⟨rfl, rfl⟩
      | succ i => cases hAt
  exact hHead.append h

end Lists

/-! ## The spans of a regex -/

/-- What a walk that sets out with `next` entries comes to: one entry for each of `count` groups, in
which the spans that `P` gives to the numbers stand at their places, if `fits`; else a fault. -/
inductive Collects (next count : Nat) (fits : Prop) (P : Nat → Span → Prop) :
    Except Fault (List (Option Span)) → Prop
  | ok {spans : List (Option Span)} (hFits : fits) (hLength : spans.length = count)
    (hLists : Lists next spans P) : Collects next count fits P (.ok spans)
  | error {f : Fault} (hFits : ¬ fits) (hFault : f ≠ .captureCount) :
    Collects next count fits P (.error f)

namespace Collects

variable {next count count' : Nat} {fits fits' : Prop} {P Q : Nat → Span → Prop}
  {result : Except Fault (List (Option Span))}

theorem congr (h : Collects next count fits P result) (hFits : fits ↔ fits')
    (hPQ : ∀ k s, Q k s ↔ P k s) : Collects next count fits' Q result := by
  cases h with
  | ok h hLength hLists => exact .ok (hFits.1 h) hLength (hLists.congr hPQ)
  | error h hFault => exact .error (fun h' => h (hFits.2 h')) hFault

theorem absent (next count : Nat) :
    Collects next count True (fun _ _ => False) (.ok (absentGroups count)) :=
  .ok trivial List.length_replicate (Lists.absent next count)

/-- The spans of one part, and after them those of the part that comes behind it. -/
theorem append {result' : Except Fault (List (Option Span))}
    {more : List (Option Span) → Except Fault (List (Option Span))}
    (h : Collects next count fits P result) (h' : Collects (next + count) count' fits' Q result')
    (hMore : ∀ spans : List (Option Span), spans.length = count → more spans = result') :
    Collects next (count + count') (fits ∧ fits') (fun k s => P k s ∨ Q k s)
      (result.bind fun spans => (more spans).map (spans ++ ·)) := by
  cases h with
  | error h hFault => exact .error (fun hBoth => h hBoth.1) hFault
  | ok h hLength hLists =>
    rw [Except.bind, hMore _ hLength]
    cases h' with
    | error h' hFault => exact .error (fun hBoth => h' hBoth.2) hFault
    | ok h' hLength' hLists' =>
      refine .ok ⟨h, h'⟩ ?_ (hLists.append (by rwa [hLength]))
      rw [List.length_append, hLength, hLength']

/-- A capturing group comes before the groups inside it. -/
theorem capture {span : Span} (h : Collects (next + 1) count fits P result) :
    Collects next (1 + count) fits (fun k s => (k = next ∧ s = span) ∨ P k s)
      (result.map (some span :: ·)) := by
  cases h with
  | error h hFault => exact .error h hFault
  | ok h hLength hLists =>
    refine .ok h ?_ hLists.cons
    rw [List.length_cons, hLength, Nat.add_comm]

end Collects

section

variable {next : Nat} {r : Regex} {t : Trace}

theorem groupSpans_capturing {id : Nat} {body : Regex} {span : Span} (hId : id = next) :
    (Regex.group (some id) body).groupSpans next (.group span t) =
      (body.groupSpans (next + 1) t).map (some span :: ·) := by
  rw [Regex.groupSpans, if_pos hId]
  cases body.groupSpans (next + 1) t <;> rfl

theorem itemsGroupSpans_of_none {q : Quantifier} {items : List (Regex × Quantifier)}
    {repetition : Repetition Trace} {repetitions : List (Repetition Trace)}
    (hLast : repetition.iterations.getLast? = none) :
    itemsGroupSpans next ((r, q) :: items) (repetition :: repetitions) =
      (itemsGroupSpans (next + r.groupCount) items repetitions).map
        (absentGroups r.groupCount ++ ·) := by
  rw [itemsGroupSpans, hLast]
  cases itemsGroupSpans (next + r.groupCount) items repetitions <;> rfl

theorem itemsGroupSpans_of_some {q : Quantifier} {items : List (Regex × Quantifier)}
    {repetition : Repetition Trace} {repetitions : List (Repetition Trace)}
    (hLast : repetition.iterations.getLast? = some t) :
    itemsGroupSpans next ((r, q) :: items) (repetition :: repetitions) =
      (r.groupSpans next t).bind fun spans =>
        (itemsGroupSpans (next + spans.length) items repetitions).map (spans ++ ·) := by
  rw [itemsGroupSpans, hLast]
  dsimp only
  cases r.groupSpans next t with
  | error f => rfl
  | ok spans =>
    dsimp only [Except.bind]
    cases itemsGroupSpans (next + spans.length) items repetitions <;> rfl

theorem branchesGroupSpans_zero {branches : List Regex} :
    branchesGroupSpans next 0 t (r :: branches) =
      (r.groupSpans next t).bind fun spans =>
        .ok (spans ++ absentGroups (branchesGroupCount branches)) := by
  rw [branchesGroupSpans]
  cases r.groupSpans next t <;> rfl

theorem branchesGroupSpans_succ {branches : List Regex} {b : Nat} :
    branchesGroupSpans next (b + 1) t (r :: branches) =
      (branchesGroupSpans (next + r.groupCount) b t branches).map
        (absentGroups r.groupCount ++ ·) := by
  rw [branchesGroupSpans]
  cases branchesGroupSpans (next + r.groupCount) b t branches <;> rfl

end

mutual

/-- The walk over a trace succeeds exactly if it finds what it asks for, and then gives one entry
for each group: its span if it is present. -/
theorem Regex.groupSpans_collects : ∀ (r : Regex) (next : Nat) (t : Trace),
    Collects next r.groupCount (r.FitsFrom next t) (r.Present t) (r.groupSpans next t)
  | .seq items, next, .seq span repetitions =>
    (itemsGroupSpans_collects items next repetitions).congr fitsFrom_seq_iff.symm
      fun _ _ => present_seq_iff
  | .alt branches, next, .alt b t =>
    (branchesGroupSpans_collects branches next b t).congr fitsFrom_alt_iff.symm
      fun _ _ => present_alt_iff
  | .group none body, next, .group span t => by
    have hBody := Regex.groupSpans_collects body next t
    rw [Regex.groupSpans, Regex.groupCount, Option.isSome_none, if_neg Bool.false_ne_true,
      Nat.zero_add]
    refine hBody.congr fitsFrom_bare_iff.symm fun k s => ?_
    simp [present_group_iff]
  | .group (some id) body, next, .group span t => by
    rw [Regex.groupCount, Option.isSome_some, if_pos rfl]
    by_cases hId : id = next
    · subst hId
      have hBody := Regex.groupSpans_collects body (id + 1) t
      rw [groupSpans_capturing rfl]
      refine hBody.capture.congr ?_ fun k s => ?_
      · rw [fitsFrom_capturing_iff]
        simp
      · rw [present_group_iff, Option.some.injEq, eq_comm (a := id)]
    · rw [Regex.groupSpans, if_neg hId]
      exact .error (fun h => hId (fitsFrom_capturing_iff.1 h).1) nofun
  | .leaf set, next, .char span => by
    refine .ok .leaf rfl ((Lists.absent next 0).congr fun k s => ?_)
    exact iff_of_false (fun h => nomatch h) id
  | .seq _, _, .char _ => .error nofun nofun
  | .seq _, _, .group _ _ => .error nofun nofun
  | .seq _, _, .alt _ _ => .error nofun nofun
  | .alt _, _, .char _ => .error nofun nofun
  | .alt _, _, .group _ _ => .error nofun nofun
  | .alt _, _, .seq _ _ => .error nofun nofun
  | .group none _, _, .char _ => .error nofun nofun
  | .group none _, _, .seq _ _ => .error nofun nofun
  | .group none _, _, .alt _ _ => .error nofun nofun
  | .group (some _) _, _, .char _ => .error nofun nofun
  | .group (some _) _, _, .seq _ _ => .error nofun nofun
  | .group (some _) _, _, .alt _ _ => .error nofun nofun
  | .leaf _, _, .group _ _ => .error nofun nofun
  | .leaf _, _, .seq _ _ => .error nofun nofun
  | .leaf _, _, .alt _ _ => .error nofun nofun

theorem itemsGroupSpans_collects : ∀ (items : List (Regex × Quantifier)) (next : Nat)
    (repetitions : List (Repetition Trace)),
    Collects next (itemsGroupCount items) (ItemsFitFrom items next repetitions)
      (ItemsPresent items repetitions) (itemsGroupSpans next items repetitions)
  | [], next, [] => by
    refine .ok ⟨rfl, ?_⟩ rfl ((Lists.absent next 0).congr fun k s => iff_of_false ?_ id)
    · rintro i r q repetition t hItem
      cases hItem
    · rintro ⟨i, r, q, repetition, t, hItem, -⟩
      cases hItem
  | [], next, _ :: _ => .error (fun h => nomatch h.1) nofun
  | _ :: _, next, [] => .error (fun h => nomatch h.1) nofun
  | (r, q) :: items, next, repetition :: repetitions => by
    have hRest := itemsGroupSpans_collects items (next + r.groupCount) repetitions
    rw [itemsGroupCount]
    cases hLast : repetition.iterations.getLast? with
    | none =>
      -- No iteration: every group of the item is passed by.
      rw [itemsGroupSpans_of_none hLast]
      have hPassed := Collects.absent next r.groupCount
      refine (hPassed.append hRest fun _ _ => rfl).congr ?_ fun k s => ?_
      · simp [itemsFitFrom_cons, hLast]
      · simp [itemsPresent_cons, hLast]
    | some t =>
      have hItem := Regex.groupSpans_collects r next t
      rw [itemsGroupSpans_of_some hLast]
      refine (hItem.append hRest fun spans hLength => by rw [hLength]).congr ?_ fun k s => ?_
      · simp [itemsFitFrom_cons, hLast]
      · simp [itemsPresent_cons, hLast]

theorem branchesGroupSpans_collects : ∀ (branches : List Regex) (next b : Nat) (t : Trace),
    Collects next (branchesGroupCount branches) (BranchFitsFrom branches next b t)
      (BranchPresent branches b t) (branchesGroupSpans next b t branches)
  | [], _, _, _ => .error (by simp [BranchFitsFrom]) nofun
  | r :: branches, next, 0, t => by
    have hBranch := Regex.groupSpans_collects r next t
    have hOthers := Collects.absent (next + r.groupCount) (branchesGroupCount branches)
    rw [branchesGroupSpans_zero, branchesGroupCount]
    refine (hBranch.append hOthers fun _ _ => rfl).congr ?_ fun k s => ?_
    · simp [branchFitsFrom_zero]
    · simp [BranchPresent]
  | r :: branches, next, b + 1, t => by
    have hRest := branchesGroupSpans_collects branches (next + r.groupCount) b t
    rw [branchesGroupSpans_succ, branchesGroupCount]
    have hPassed := Collects.absent next r.groupCount
    refine (hPassed.append hRest fun _ _ => rfl).congr ?_ fun k s => ?_
    · simp [branchFitsFrom_succ]
    · simp [BranchPresent]

end

/-! ## Regexes numbered in order -/

mutual

/-- Where groups are numbered in the order in which they open, a trace of the right shape is as the
walk wants it. -/
theorem Regex.fitsFrom_of_fits : ∀ (r : Regex) (next : Nat) (t : Trace), r.NumberedFrom next →
    r.Fits t → r.FitsFrom next t
  | .seq items, next, .seq span repetitions, hNumbered, hFits =>
    fitsFrom_seq_iff.2 (itemsFitFrom_of_fit items next repetitions hNumbered hFits)
  | .alt branches, next, .alt b t, hNumbered, hFits =>
    fitsFrom_alt_iff.2 (branchFitsFrom_of_fits branches next b t hNumbered hFits)
  | .group none body, next, .group span t, hNumbered, hFits =>
    .bare (Regex.fitsFrom_of_fits body next t (numberedFrom_group_none.1 hNumbered) hFits)
  | .group (some id) body, next, .group span t, hNumbered, hFits => by
    obtain ⟨rfl, hBody⟩ := numberedFrom_group_some.1 hNumbered
    exact .capturing (Regex.fitsFrom_of_fits body (id + 1) t hBody hFits)
  | .leaf set, next, .char span, _, _ => .leaf

theorem itemsFitFrom_of_fit : ∀ (items : List (Regex × Quantifier)) (next : Nat)
    (repetitions : List (Repetition Trace)), ItemsNumberedFrom items next →
    ItemsFit items repetitions → ItemsFitFrom items next repetitions
  | [], next, [], _, _ => ⟨rfl, fun i r q repetition t hItem => nomatch hItem⟩
  | (r, q) :: items, next, repetition :: repetitions, hNumbered, hFits => by
    obtain ⟨hFirst, hRest⟩ := itemsNumberedFrom_cons.1 hNumbered
    refine itemsFitFrom_cons.2 ⟨fun t hLast => ?_, ?_⟩
    · exact Regex.fitsFrom_of_fits r next t hFirst (hFits.1 t (List.mem_of_getLast? hLast))
    · exact itemsFitFrom_of_fit items (next + r.groupCount) repetitions hRest hFits.2

theorem branchFitsFrom_of_fits : ∀ (branches : List Regex) (next b : Nat) (t : Trace),
    BranchesNumberedFrom branches next → BranchFits branches b t →
    BranchFitsFrom branches next b t
  | r :: _, next, 0, t, hNumbered, hFits =>
    branchFitsFrom_zero.2
      (Regex.fitsFrom_of_fits r next t (branchesNumberedFrom_cons.1 hNumbered).1 hFits)
  | r :: branches, next, b + 1, t, hNumbered, hFits =>
    branchFitsFrom_succ.2 (branchFitsFrom_of_fits branches (next + r.groupCount) b t
      (branchesNumberedFrom_cons.1 hNumbered).2 hFits)

end

/-- The walk over a trace of the right shape succeeds and gives one entry for each group: its span
if it is present. -/
theorem Regex.groupSpans_spec (r : Regex) (next : Nat) (t : Trace)
    (hNumbered : r.NumberedFrom next) (hFits : r.Fits t) :
    ∃ spans, r.groupSpans next t = .ok spans ∧ spans.length = r.groupCount ∧
      Lists next spans (r.Present t) := by
  have hCollects := r.groupSpans_collects next t
  cases hResult : r.groupSpans next t with
  | error f =>
    rw [hResult] at hCollects
    cases hCollects with
    | error h _ => exact absurd (r.fitsFrom_of_fits next t hNumbered hFits) h
  | ok spans =>
    rw [hResult] at hCollects
    cases hCollects with
    | ok _ hLength hLists => exact ⟨spans, rfl, hLength, hLists⟩

end BacktrackRegex
