import BacktrackRegex.Proofs.Captures.Presence
import BacktrackRegex.Proofs.Pattern.Numbering
import BacktrackRegex.Proofs.Search.Priority

/-!
# Captured spans are nested as their groups are

The spans of the groups that take part in a match form a laminar family in source order.  The span
of a group inside another group lies in the span of the outer one, and of two groups side by side
the one that opens first also ends before the other one starts.  The walk over a trace knows nothing
of all that.  It holds because the trace tiles the text and because every group is gone into at most
once, in its last iteration.

* `Regex.Nests` — one group is inside another;
* `Laminar` — a family of spans over consecutive groups, put together as a regex is;
* `Regex.laminar` — the spans of the groups of a regex;
* `Regex.groupSpans_laminar` — the entries of the capture list of a match.
-/

set_option autoImplicit false

namespace BacktrackRegex

/-- The span lies inside the other one. -/
def Span.Inside (s s' : Span) : Prop := s'.start ≤ s.start ∧ s.stop ≤ s'.stop

/-! ## Groups inside groups -/

mutual

/-- Group number `h` is inside group number `g`. -/
def Regex.Nests (g h : Nat) : Regex → Prop
  | .seq items => ItemsNest g h items
  | .alt branches => BranchesNest g h branches
  | .group id body => (id = some g ∧ h ∈ body.ids) ∨ body.Nests g h
  | .leaf _ => False

/-- Group number `h` is inside group number `g` in one of the items. -/
def ItemsNest (g h : Nat) : List (Regex × Quantifier) → Prop
  | [] => False
  | (r, _) :: items => r.Nests g h ∨ ItemsNest g h items

/-- Group number `h` is inside group number `g` in one of the branches. -/
def BranchesNest (g h : Nat) : List Regex → Prop
  | [] => False
  | r :: branches => r.Nests g h ∨ BranchesNest g h branches

end

mutual

/-- A group inside another group of a regex is a group of the regex. -/
theorem Regex.Nests.mem_ids {g h : Nat} : ∀ {r : Regex}, r.Nests g h → h ∈ r.ids
  | .seq _, hNests => ItemsNest.mem_ids hNests
  | .alt _, hNests => BranchesNest.mem_ids hNests
  | .group _ _, .inl ⟨_, hMem⟩ => List.mem_append_right _ hMem
  | .group _ _, .inr hBody => List.mem_append_right _ (Regex.Nests.mem_ids hBody)

theorem ItemsNest.mem_ids {g h : Nat} : ∀ {items : List (Regex × Quantifier)},
    ItemsNest g h items → h ∈ itemsIds items
  | _ :: _, .inl hFirst => List.mem_append_left _ (Regex.Nests.mem_ids hFirst)
  | _ :: _, .inr hRest => List.mem_append_right _ (ItemsNest.mem_ids hRest)

theorem BranchesNest.mem_ids {g h : Nat} : ∀ {branches : List Regex},
    BranchesNest g h branches → h ∈ branchesIds branches
  | _ :: _, .inl hFirst => List.mem_append_left _ (Regex.Nests.mem_ids hFirst)
  | _ :: _, .inr hRest => List.mem_append_right _ (BranchesNest.mem_ids hRest)

end

theorem Regex.NumberedFrom.mem_ids_iff {r : Regex} {next k : Nat} (h : r.NumberedFrom next) :
    k ∈ r.ids ↔ next ≤ k ∧ k < next + r.groupCount := by
  rw [h, List.mem_range'_1]

theorem BranchesNumberedFrom.mem_ids_iff {branches : List Regex} {next k : Nat}
    (h : BranchesNumberedFrom branches next) :
    k ∈ branchesIds branches ↔ next ≤ k ∧ k < next + branchesGroupCount branches := by
  rw [h, List.mem_range'_1]

/-! ## Laminar families -/

/-- Of `count` groups, the first of which has the number `next`, those that `present` gives spans to
have them between `start` and `stop`: one in the other where one group is in the other (`nested`),
and else one behind the other in the order of the groups. -/
structure Laminar (next count : Nat) (nested : Nat → Nat → Prop) (present : Nat → Span → Prop)
    (start stop : Nat) : Prop where
  numbered : ∀ {k s}, present k s → next ≤ k ∧ k < next + count
  nested_numbered : ∀ {g h}, nested g h → next ≤ h ∧ h < next + count
  within : ∀ {k s}, present k s → start ≤ s.start ∧ s.stop ≤ stop
  enclosed : ∀ {g h s}, nested g h → present h s → ∃ s', present g s' ∧ s.Inside s'
  apart : ∀ {g h s s'}, g < h → ¬ nested g h → present g s → present h s' → s.stop ≤ s'.start

namespace Laminar

variable {next count count' start mid stop : Nat} {nested nested' : Nat → Nat → Prop}
  {present present' : Nat → Span → Prop}

/-- No group is present. -/
theorem absent (start stop : Nat) (h : ∀ {g h}, nested g h → next ≤ h ∧ h < next + count) :
    Laminar next count nested (fun _ _ => False) start stop where
  numbered h := h.elim
  nested_numbered := h
  within h := h.elim
  enclosed _ h := h.elim
  apart _ _ h := h.elim

theorem congr (h : Laminar next count nested present start stop)
    (hNested : ∀ g h, nested' g h ↔ nested g h) (hPresent : ∀ k s, present' k s ↔ present k s) :
    Laminar next count nested' present' start stop := by
  obtain rfl : nested' = nested := funext fun g => funext fun h => propext (hNested g h)
  obtain rfl : present' = present := funext fun k => funext fun s => propext (hPresent k s)
  exact h

/-- In a longer part of the text. -/
theorem widen {start' stop' : Nat} (h : Laminar next count nested present start stop)
    (hStart : start' ≤ start) (hStop : stop ≤ stop') :
    Laminar next count nested present start' stop' where
  numbered := h.numbered
  nested_numbered := h.nested_numbered
  within hPresent := by
    have := h.within hPresent
    omega
  enclosed := h.enclosed
  apart := h.apart

/-- Two families one behind the other, in the numbers of their groups and in the text. -/
theorem append (h : Laminar next count nested present start mid)
    (h' : Laminar (next + count) count' nested' present' mid stop) (hStart : start ≤ mid)
    (hStop : mid ≤ stop) :
    Laminar next (count + count') (fun g h => nested g h ∨ nested' g h)
      (fun k s => present k s ∨ present' k s) start stop where
  numbered := by
    rintro k s (hFirst | hLater)
    · have := h.numbered hFirst
      omega
    · have := h'.numbered hLater
      omega
  nested_numbered := by
    rintro g k (hFirst | hLater)
    · have := h.nested_numbered hFirst
      omega
    · have := h'.nested_numbered hLater
      omega
  within := by
    rintro k s (hFirst | hLater)
    · have := h.within hFirst
      omega
    · have := h'.within hLater
      omega
  enclosed := by
    -- A group is nested in the family that its number belongs to.
    rintro g k s (hNested | hNested) (hFirst | hLater)
    · obtain ⟨s', hPresent, hInside⟩ := h.enclosed hNested hFirst
      exact ⟨s', .inl hPresent, hInside⟩
    · have := h.nested_numbered hNested
      have := h'.numbered hLater
      omega
    · have := h'.nested_numbered hNested
      have := h.numbered hFirst
      omega
    · obtain ⟨s', hPresent, hInside⟩ := h'.enclosed hNested hLater
      exact ⟨s', .inr hPresent, hInside⟩
  apart := by
    rintro g k s s' hLt hApart (hFirst | hLater) (hFirst' | hLater')
    · exact h.apart hLt (fun hNested => hApart (.inl hNested)) hFirst hFirst'
    · have := h.within hFirst
      have := h'.within hLater'
      omega
    · have := h'.numbered hLater
      have := h.numbered hFirst'
      omega
    · exact h'.apart hLt (fun hNested => hApart (.inr hNested)) hLater hLater'

/-- A group around a family, whose number comes before those of the family. -/
theorem enclose {span : Span} {ids : List Nat}
    (h : Laminar (next + 1) count nested present span.start span.stop)
    (hIds : ∀ k, k ∈ ids ↔ next + 1 ≤ k ∧ k < next + 1 + count) :
    Laminar next (1 + count) (fun g h => (next = g ∧ h ∈ ids) ∨ nested g h)
      (fun k s => (k = next ∧ s = span) ∨ present k s) span.start span.stop where
  numbered := by
    rintro k s (⟨rfl, -⟩ | hBody)
    · omega
    · have := h.numbered hBody
      omega
  nested_numbered := by
    rintro g k (⟨-, hMem⟩ | hNested)
    · have := (hIds k).1 hMem
      omega
    · have := h.nested_numbered hNested
      omega
  within := by
    rintro k s (⟨-, rfl⟩ | hBody)
    · exact ⟨Nat.le_refl _, Nat.le_refl _⟩
    · exact h.within hBody
  enclosed := by
    rintro g k s (⟨rfl, hMem⟩ | hNested) (⟨rfl, -⟩ | hBody)
    · have := (hIds k).1 hMem
      omega
    · exact ⟨span, .inl ⟨rfl, rfl⟩, h.within hBody⟩
    · have := h.nested_numbered hNested
      omega
    · obtain ⟨s', hPresent, hInside⟩ := h.enclosed hNested hBody
      exact ⟨s', .inr hPresent, hInside⟩
  apart := by
    rintro g k s s' hLt hApart (⟨rfl, -⟩ | hBody) (⟨rfl, -⟩ | hBody')
    · omega
    · exact absurd (.inl ⟨rfl, (hIds k).2 (h.numbered hBody')⟩) hApart
    · have := h.numbered hBody
      omega
    · exact h.apart hLt (fun hNested => hApart (.inr hNested)) hBody hBody'

end Laminar

/-! ## The groups of a regex -/

/-- Each of the traces that follow one another starts and ends between the ends of all of them. -/
theorem TilesTo.exists_of_mem {tiled : Nat → Trace → Prop}
    (hStart : ∀ pos t, tiled pos t → t.span.start = pos) {stop pos : Nat} {ts : List Trace}
    (h : TilesTo tiled stop pos ts) {t : Trace} (hMem : t ∈ ts) :
    ∃ pos', tiled pos' t ∧ pos ≤ pos' ∧ t.span.stop ≤ stop := by
  induction ts generalizing pos with
  | nil => cases hMem
  | cons u ts ih =>
    have hRest := h.2.le hStart
    rcases List.mem_cons.1 hMem with rfl | hMem
    · exact ⟨pos, h.1, Nat.le_refl _, hRest⟩
    · obtain ⟨pos', hTiled, hLe, hStop⟩ := ih h.2 hMem
      have hFirst : pos ≤ u.span.stop := by
        rw [Span.stop, hStart pos u h.1]
        omega
      exact ⟨pos', hTiled, Nat.le_trans hFirst hLe, hStop⟩

mutual

/-- The groups of a regex that are present in a tiled trace have a laminar family of spans. -/
theorem Regex.laminar : ∀ (r : Regex) (next pos : Nat) (t : Trace), r.NumberedFrom next →
    r.Tiled pos t →
    Laminar next r.groupCount (fun g h => r.Nests g h) (r.Present t) pos t.span.stop
  | .seq items, next, pos, .seq span repetitions, hNumbered, hTiled =>
    (items_laminar items next span.stop pos repetitions hNumbered hTiled.2).congr
      (fun _ _ => Iff.rfl) fun _ _ => present_seq_iff
  | .alt branches, next, pos, .alt b t, hNumbered, hTiled =>
    (branches_laminar branches next b pos t hNumbered hTiled).congr
      (fun _ _ => Iff.rfl) fun _ _ => present_alt_iff
  | .group none body, next, pos, .group _ t, hNumbered, hTiled => by
    obtain ⟨rfl, hBody⟩ := hTiled
    have hLaminar := Regex.laminar body next pos t (numberedFrom_group_none.1 hNumbered) hBody
    have hCount : (Regex.group none body).groupCount = body.groupCount := Nat.zero_add _
    rw [hCount]
    refine hLaminar.congr (fun g h => ?_) fun k s => ?_
    · simp [Regex.Nests]
    · simp [present_group_iff]
  | .group (some id) body, next, pos, .group _ t, hNumbered, hTiled => by
    obtain ⟨rfl, hBody⟩ := hTiled
    obtain ⟨rfl, hNumbered⟩ := numberedFrom_group_some.1 hNumbered
    have hStart := Regex.Tiled.start_eq body pos t hBody
    have hLaminar := Regex.laminar body (id + 1) pos t hNumbered hBody
    rw [← hStart] at hLaminar ⊢
    refine (hLaminar.enclose fun k => hNumbered.mem_ids_iff).congr (fun g h => ?_) fun k s => ?_
    · simp [Regex.Nests]
    · simp [present_group_iff, eq_comm]
  | .leaf _, next, pos, .char span, _, _ =>
    (Laminar.absent pos span.stop (fun h => h.elim)).congr (fun _ _ => Iff.rfl)
      fun _ _ => iff_of_false (fun h => nomatch h) id

theorem items_laminar : ∀ (items : List (Regex × Quantifier)) (next stop pos : Nat)
    (repetitions : List (Repetition Trace)), ItemsNumberedFrom items next →
    ItemsTiled items stop pos repetitions →
    Laminar next (itemsGroupCount items) (fun g h => ItemsNest g h items)
      (ItemsPresent items repetitions) pos stop
  | [], next, stop, pos, [], _, _ => by
    refine (Laminar.absent pos stop (fun h => h.elim)).congr (fun _ _ => Iff.rfl) fun k s => ?_
    simp [ItemsPresent]
  | (r, q) :: items, next, stop, _, repetition :: repetitions, hNumbered,
      ⟨rfl, hTiles, hItems⟩ => by
    obtain ⟨hFirst, hRest⟩ := itemsNumberedFrom_cons.1 hNumbered
    have hLaterLaminar := items_laminar items (next + r.groupCount) stop repetition.span.stop
      repetitions hRest hItems
    have hFirstLaminar : Laminar next r.groupCount (fun g h => r.Nests g h)
        (fun k s => ∃ t, repetition.iterations.getLast? = some t ∧ r.Present t k s)
        repetition.span.start repetition.span.stop := by
      cases hLast : repetition.iterations.getLast? with
      | none =>
        refine (Laminar.absent _ _ fun hNests => ?_).congr (fun _ _ => Iff.rfl) fun k s => ?_
        · exact hFirst.mem_ids_iff.1 hNests.mem_ids
        · simp
      | some t =>
        obtain ⟨pos, hTiled, hStart, hStop⟩ :=
          hTiles.exists_of_mem (Regex.Tiled.start_eq r) (List.mem_of_getLast? hLast)
        have hLaminar := Regex.laminar r next pos t hFirst hTiled
        refine (hLaminar.widen hStart hStop).congr (fun _ _ => Iff.rfl) fun k s => ?_
        simp
    refine (hFirstLaminar.append hLaterLaminar (Nat.le_add_right _ _) (itemsTiled_le hItems)).congr
      (fun _ _ => Iff.rfl) fun k s => ?_
    exact itemsPresent_cons

theorem branches_laminar : ∀ (branches : List Regex) (next b pos : Nat) (t : Trace),
    BranchesNumberedFrom branches next → BranchTiled branches b pos t →
    Laminar next (branchesGroupCount branches) (fun g h => BranchesNest g h branches)
      (BranchPresent branches b t) pos t.span.stop
  | r :: branches, next, 0, pos, t, hNumbered, hTiled => by
    obtain ⟨hFirst, hRest⟩ := branchesNumberedFrom_cons.1 hNumbered
    have hLaminar := Regex.laminar r next pos t hFirst hTiled
    have hLe : pos ≤ t.span.stop := by
      rw [Span.stop, Regex.Tiled.start_eq r pos t hTiled]
      omega
    have hAbsent : Laminar (next + r.groupCount) (branchesGroupCount branches)
        (fun g h => BranchesNest g h branches) (fun _ _ => False) t.span.stop t.span.stop :=
      Laminar.absent _ _ fun hNests => hRest.mem_ids_iff.1 hNests.mem_ids
    refine (hLaminar.append hAbsent hLe (Nat.le_refl _)).congr (fun _ _ => Iff.rfl) fun k s => ?_
    simp [BranchPresent]
  | r :: branches, next, b + 1, pos, t, hNumbered, hTiled => by
    obtain ⟨hFirst, hRest⟩ := branchesNumberedFrom_cons.1 hNumbered
    have hLaminar := branches_laminar branches (next + r.groupCount) b pos t hRest hTiled
    have hLe : pos ≤ t.span.stop := by
      rw [Span.stop, branchTiled_start_eq branches b pos t hTiled]
      omega
    have hAbsent : Laminar next r.groupCount (fun g h => r.Nests g h) (fun _ _ => False) pos pos :=
      Laminar.absent _ _ fun hNests => hFirst.mem_ids_iff.1 hNests.mem_ids
    refine (hAbsent.append hLaminar (Nat.le_refl _) hLe).congr (fun _ _ => Iff.rfl) fun k s => ?_
    simp [BranchPresent]

end

/-! ## Capture lists -/

/-- The entries of a capture list, of which entry 0 is the whole match, are laminar: all of them lie
in entry 0, which is at the start of the text, a group inside another group is in the span of that
one, and of two other groups the earlier one ends where the later one starts, or before it. -/
structure LaminarEntries (r : Regex) (size : Nat) (entries : List (Option Span)) : Prop where
  whole : ∃ w, entries[0]? = some (some w) ∧ w.start = 0 ∧ w.stop ≤ size ∧
    ∀ (k : Nat) (s : Span), entries[k]? = some (some s) → s.Inside w
  enclosed : ∀ (g h : Nat) (s : Span), r.Nests g h → entries[h]? = some (some s) →
    ∃ s', entries[g]? = some (some s') ∧ s.Inside s'
  apart : ∀ (g h : Nat) (s s' : Span), 0 < g → g < h → ¬ r.Nests g h → entries[g]? = some (some s) →
    entries[h]? = some (some s') → s.stop ≤ s'.start

/-- Behind the entry of the whole match the spans stand at the numbers of their groups. -/
theorem Lists.getElem?_cons_iff {spans : List (Option Span)} {present : Nat → Span → Prop}
    (h : Lists 1 spans present) {w s : Span} {k : Nat} (hPos : 0 < k) :
    (some w :: spans)[k]? = some (some s) ↔ present k s := by
  rw [h k s]
  cases k with
  | zero => omega
  | succ i =>
    rw [List.getElem?_cons_succ]
    constructor
    · intro hAt
      exact ⟨i, Nat.add_comm i 1, hAt⟩
    · rintro ⟨j, hj, hAt⟩
      obtain rfl : i = j := by omega
      exact hAt

theorem Laminar.entries {r : Regex} {t : Trace} {spans : List (Option Span)} {size : Nat}
    (h : Laminar 1 r.groupCount (fun g h => r.Nests g h) (r.Present t) 0 t.span.stop)
    (hLists : Lists 1 spans (r.Present t)) (hStart : t.span.start = 0)
    (hStop : t.span.stop ≤ size) : LaminarEntries r size (some t.span :: spans) where
  whole := by
    refine ⟨t.span, rfl, hStart, hStop, fun k s hAt => ?_⟩
    rw [Span.Inside, hStart]
    rcases Nat.eq_zero_or_pos k with rfl | hPos
    · cases hAt
      exact ⟨Nat.zero_le _, Nat.le_refl _⟩
    · exact h.within ((hLists.getElem?_cons_iff hPos).1 hAt)
  enclosed g k s hNests hAt := by
    have hPos := (h.nested_numbered hNests).1
    obtain ⟨s', hPresent, hInside⟩ := h.enclosed hNests ((hLists.getElem?_cons_iff hPos).1 hAt)
    exact ⟨s', (hLists.getElem?_cons_iff (h.numbered hPresent).1).2 hPresent, hInside⟩
  apart g k s s' hPos hLt hApart hAt hAt' :=
    h.apart hLt hApart ((hLists.getElem?_cons_iff hPos).1 hAt)
      ((hLists.getElem?_cons_iff (Nat.lt_trans hPos hLt)).1 hAt')

/-- For every pattern that compiles and every text that it matches, the walk over the trace of the
match gives a laminar list of spans, with one entry for each group behind the whole match. -/
theorem Regex.groupSpans_laminar {pattern : String} {r : Regex} (hParse : parse pattern = .ok r)
    {text : Array Char} {limits : Limits} {t : Trace}
    (hRun : r.run text limits = .ok (.ok (some t))) :
    ∃ spans, r.groupSpans 1 t = .ok spans ∧ spans.length = r.groupCount ∧
      LaminarEntries r text.size (some t.span :: spans) := by
  obtain ⟨hBranched, hNumbered⟩ := parse_reads hParse
  obtain ⟨hTiled, hStart, hStop⟩ := tiled_of_mem_traces (mem_traces_of_run hBranched hRun)
  obtain ⟨spans, hOk, hLength, hLists⟩ :=
    r.groupSpans_spec 1 t hNumbered (Regex.Tiled.fits r 0 t hTiled)
  exact ⟨spans, hOk, hLength, (r.laminar 1 0 t hNumbered hTiled).entries hLists hStart hStop⟩

/-- The pattern `((a)|(b(c)))*(d)?` matches `abc`.  The last iteration of group 1 is `bc`, with
groups 3 and 4 in it; of group 2 nothing is left, and group 5 has no iteration. -/
theorem Regex.groupSpans_laminar_lastIteration :
    ∃ r t, parse "((a)|(b(c)))*(d)?" = .ok r ∧
      r.run #['a', 'b', 'c', 'x'] .unlimited = .ok (.ok (some t)) ∧
      r.groupSpans 1 t = .ok [some ⟨1, 2⟩, none, some ⟨1, 2⟩, some ⟨2, 1⟩, none] ∧
      LaminarEntries r 4 [some ⟨0, 3⟩, some ⟨1, 2⟩, none, some ⟨1, 2⟩, some ⟨2, 1⟩, none] := by
  have hComputed :
      (parse "((a)|(b(c)))*(d)?").toOption.bind (fun r =>
        ((r.run #['a', 'b', 'c', 'x'] .unlimited).toOption.bind Except.toOption).join.bind fun t =>
          (r.groupSpans 1 t).toOption.map fun spans => (t.span, spans)) =
        some (⟨0, 3⟩, [some ⟨1, 2⟩, none, some ⟨1, 2⟩, some ⟨2, 1⟩, none]) := by
    decide +kernel
  simp only [Option.bind_eq_some_iff, Option.map_eq_some_iff, Option.join_eq_some_iff,
    toOption_eq_some_iff, Prod.mk.injEq] at hComputed
  obtain ⟨r, hParse, t, ⟨answer, hRun, rfl⟩, spans, hSpans, hWhole, rfl⟩ := hComputed
  obtain ⟨spans, hOk, -, hLaminar⟩ := groupSpans_laminar hParse hRun
  cases hSpans.symm.trans hOk
  rw [hWhole] at hLaminar
  exact ⟨r, t, hParse, hRun, hOk, hLaminar⟩

end BacktrackRegex
