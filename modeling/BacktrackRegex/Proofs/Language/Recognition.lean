import BacktrackRegex.Proofs.Language.Basic
import BacktrackRegex.Proofs.Trace.Outcomes

/-!
# Outcomes recognise the language

An outcome of a regex ends where a word of its language ends, and each word that the text goes on
with has an outcome that ends there.  The second half is about repetitions, which a search leaves
as soon as an iteration was empty and the minimum is reached: every word of the repetition can be
had without empty iterations, but for those that the minimum asks for, and these come first
(`Quantifier.Factors`).

* `Outcomes.Recognises` — outcomes end where the words of a language end;
* `Regex.outcomes_recognise` — those of a regex do so for its language.
-/

set_option autoImplicit false

namespace BacktrackRegex

variable {text : Array Char}

/-! ## Words in the text -/

/-- The text goes on with this word at `pos`. -/
def ReadsAt (text : Array Char) (pos : Nat) (w : List Char) : Prop := w <+: text.toList.drop pos

theorem readsAt_nil {pos : Nat} : ReadsAt text pos [] := List.nil_prefix

theorem readsAt_append {pos : Nat} {u v : List Char} :
    ReadsAt text pos (u ++ v) ↔ ReadsAt text pos u ∧ ReadsAt text (pos + u.length) v := by
  rw [ReadsAt, ReadsAt, ReadsAt, ← List.drop_drop]
  constructor
  · intro h
    have hLeft := (List.prefix_append u v).trans h
    refine ⟨hLeft, ?_⟩
    rwa [List.prefix_iff_eq_append.1 hLeft |>.symm, List.prefix_append_right_inj] at h
  · rintro ⟨hLeft, hRight⟩
    rwa [List.prefix_iff_eq_append.1 hLeft |>.symm, List.prefix_append_right_inj]

theorem readsAt_singleton {pos : Nat} {c : Char} :
    ReadsAt text pos [c] ↔ text[pos]? = some c := by
  rw [ReadsAt, ← Array.getElem?_toList, ← List.head?_drop]
  cases text.toList.drop pos with
  | nil => simp
  | cons d rest => simp [List.cons_prefix_cons, eq_comm]

/-! ## Repetitions -/

/-- Words, none of them empty, that repetitions of `L` can go through when `count` iterations are
done: they reach the minimum or can be preceded by empty iterations until it is reached, and
neither way leads beyond the maximum. -/
structure Quantifier.Factors (q : Quantifier) (L : Language Char) (count : Nat)
    (ws : List (List Char)) : Prop where
  mem : ∀ w ∈ ws, w ∈ L
  nonempty : ∀ w ∈ ws, w ≠ []
  enough : q.min.toNat ≤ count + ws.length ∨ [] ∈ L
  within : ∀ max, q.max = some max → q.min.toNat ≤ max.toNat ∧ count + ws.length ≤ max.toNat

/-- Every word of a repetition has factors that are not empty. -/
theorem Quantifier.exists_factors {q : Quantifier} {L : Language Char} {w : List Char}
    (h : w ∈ q.powers L) : ∃ ws, q.Factors L 0 ws ∧ ws.flatten = w := by
  obtain ⟨count, ⟨hMin, hMax⟩, hPower⟩ := h
  obtain ⟨S, rfl, rfl, hMem⟩ := Language.mem_pow.1 hPower
  have hLength : (S.filter (· ≠ [])).length ≤ S.length := List.length_filter_le _ S
  refine ⟨S.filter (· ≠ []), ⟨?_, ?_, ?_, ?_⟩, List.flatten_filter_ne_nil⟩
  · intro w hw
    exact hMem w (List.mem_filter.1 hw).1
  · intro w hw
    exact of_decide_eq_true (List.mem_filter.1 hw).2
  · by_cases hNil : [] ∈ S
    · exact .inr (hMem [] hNil)
    · -- No factor is empty, so none was left out.
      left
      rw [List.filter_eq_self.2 fun w hw => decide_eq_true (ne_of_mem_of_not_mem hw hNil)]
      omega
  · intro max hSome
    have := hMax max hSome
    omega

namespace Outcomes

/-- The outcomes end exactly where words of the language end. -/
def Recognises {α : Type} (os : Outcomes text.size α) (L : Language Char) : Prop :=
  ∀ pos stop, (∃ o ∈ os.run pos, o.stop = stop) ↔
    ∃ w ∈ L, ReadsAt text pos w ∧ pos + w.length = stop

variable {body : Outcomes text.size Trace} {L : Language Char} {q : Quantifier} {count pos : Nat}

/-- The iterations of an outcome take words of the body, and their number is allowed. -/
theorem iterations_sound (hBody : body.Recognises L) {o : Outcome (List Trace)}
    (hMax : ∀ max, q.max = some max → count ≤ max.toNat) (h : o ∈ body.iterations q count pos) :
    ∃ ws : List (List Char), (∀ w ∈ ws, w ∈ L) ∧ q.Allows (count + ws.length) ∧
      ReadsAt text pos ws.flatten ∧ pos + ws.flatten.length = o.stop := by
  fun_induction iterations body q count pos generalizing o with
  | case1 count pos ih =>
    rcases List.mem_append.1 h with hMore | hStop
    · split at hMore
      · rename_i hAllowed
        have hMax' : ∀ max, q.max = some max → count + 1 ≤ max.toNat :=
          Quantifier.allowsMore_iff.1 hAllowed
        obtain ⟨first, hFirst, hRest⟩ := List.mem_flatMap.1 hMore
        obtain ⟨u, hu, hReads, hStop⟩ := (hBody pos first.stop).1 ⟨first, hFirst, rfl⟩
        split at hRest
        · rename_i hLast
          rw [List.mem_singleton.1 hRest]
          refine ⟨[u], ?_, ⟨Quantifier.allowsStop_iff.1 hLast.2, hMax'⟩, ?_, ?_⟩
          · intro w hw
            rwa [List.mem_singleton.1 hw]
          · rwa [List.flatten_singleton]
          · rwa [List.flatten_singleton]
        · rename_i hGoesOn
          obtain ⟨later, hLater, rfl⟩ := List.mem_map.1 hRest
          obtain ⟨ws, hMem, hAllows, hReads', hStop'⟩ := ih first hFirst hGoesOn hMax' hLater
          refine ⟨u :: ws, ?_, ?_, ?_, ?_⟩
          · exact List.forall_mem_cons.2 ⟨hu, hMem⟩
          · rwa [List.length_cons, Nat.add_comm ws.length 1, ← Nat.add_assoc]
          · rw [List.flatten_cons, readsAt_append, hStop]
            exact ⟨hReads, hReads'⟩
          · rw [List.flatten_cons, List.length_append, ← Nat.add_assoc, hStop]
            exact hStop'
      · cases hMore
    · split at hStop
      · rename_i hAllowed
        rw [List.mem_singleton.1 hStop]
        exact ⟨[], fun w hw => absurd hw List.not_mem_nil,
          ⟨Quantifier.allowsStop_iff.1 hAllowed, hMax⟩, readsAt_nil, rfl⟩
      · cases hStop

theorem stop_mem_iterations (hStop : q.allowsStop count) :
    ⟨[], pos⟩ ∈ body.iterations q count pos := by
  rw [iterations, if_pos hStop]
  exact List.mem_append_right _ List.mem_cons_self

theorem last_mem_iterations (hMore : q.allowsMore count) {o : Outcome Trace}
    (hMem : o ∈ body.run pos) (hLast : o.stop = pos ∧ q.allowsStop (count + 1)) :
    ⟨[o.value], o.stop⟩ ∈ body.iterations q count pos := by
  rw [iterations, if_pos hMore]
  refine List.mem_append_left _ (List.mem_flatMap.2 ⟨o, hMem, ?_⟩)
  rw [if_pos hLast]
  exact List.mem_cons_self

theorem cons_mem_iterations (hMore : q.allowsMore count) {o : Outcome Trace}
    (hMem : o ∈ body.run pos) (hGoesOn : ¬ (o.stop = pos ∧ q.allowsStop (count + 1)))
    {later : Outcome (List Trace)} (hLater : later ∈ body.iterations q (count + 1) o.stop) :
    later.map (o.value :: ·) ∈ body.iterations q count pos := by
  rw [iterations, if_pos hMore]
  refine List.mem_append_left _ (List.mem_flatMap.2 ⟨o, hMem, ?_⟩)
  rw [if_neg hGoesOn]
  exact List.mem_map_of_mem hLater

/-- Factors that the text goes on with have an outcome: the empty iterations that are missing come
first, then one iteration for each factor. -/
theorem iterations_complete (hBody : body.Recognises L) {ws : List (List Char)}
    (hFactors : q.Factors L count ws) (hReads : ReadsAt text pos ws.flatten) :
    ∃ o ∈ body.iterations q count pos, o.stop = pos + ws.flatten.length := by
  induction count, pos using iterations.induct body q generalizing ws with
  | case1 count pos ih =>
    by_cases hMissing : count + ws.length < q.min.toNat
    · -- An empty iteration comes next; it is the last one if nothing else has to come.
      have hNil : [] ∈ L := hFactors.enough.resolve_left (by omega)
      have hMore : q.allowsMore count := by
        rw [Quantifier.allowsMore_iff]
        intro max hMax
        have := hFactors.within max hMax
        omega
      obtain ⟨o, hMem, hStop⟩ := (hBody pos pos).2 ⟨[], hNil, readsAt_nil, rfl⟩
      by_cases hLast : o.stop = pos ∧ q.allowsStop (count + 1)
      · have hEnough := Quantifier.allowsStop_iff.1 hLast.2
        obtain rfl : ws = [] := List.eq_nil_of_length_eq_zero (by omega)
        exact ⟨_, last_mem_iterations hMore hMem hLast, hStop⟩
      · have hNext : q.Factors L (count + 1) ws := by
          refine ⟨hFactors.mem, hFactors.nonempty, .inr hNil, fun max hMax => ?_⟩
          have := hFactors.within max hMax
          omega
        obtain ⟨later, hLater, hEnd⟩ := ih o hMem hLast hNext (by rwa [hStop])
        rw [hStop] at hEnd
        exact ⟨_, cons_mem_iterations hMore hMem hLast hLater, hEnd⟩
    · cases ws with
      | nil =>
        have hStop := Quantifier.allowsStop_iff.2 (Nat.le_of_not_lt hMissing)
        exact ⟨_, stop_mem_iterations hStop, rfl⟩
      | cons w ws =>
        rw [List.length_cons] at hMissing
        rw [List.flatten_cons, readsAt_append] at hReads
        have hMore : q.allowsMore count := by
          rw [Quantifier.allowsMore_iff]
          intro max hMax
          have := (hFactors.within max hMax).2
          rw [List.length_cons] at this
          omega
        obtain ⟨o, hMem, hStop⟩ := (hBody pos _).2
          ⟨w, hFactors.mem w List.mem_cons_self, hReads.1, rfl⟩
        have hLength : 0 < w.length :=
          List.length_pos_iff.2 (hFactors.nonempty w List.mem_cons_self)
        have hGoesOn : ¬ (o.stop = pos ∧ q.allowsStop (count + 1)) := by
          rintro ⟨hEmpty, -⟩
          omega
        have hNext : q.Factors L (count + 1) ws := by
          refine ⟨fun v hv => hFactors.mem v (List.mem_cons_of_mem w hv),
            fun v hv => hFactors.nonempty v (List.mem_cons_of_mem w hv), .inl (by omega),
            fun max hMax => ?_⟩
          have := hFactors.within max hMax
          rw [List.length_cons] at this
          omega
        obtain ⟨later, hLater, hEnd⟩ := ih o hMem hGoesOn hNext (by rw [hStop]; exact hReads.2)
        refine ⟨_, cons_mem_iterations hMore hMem hGoesOn hLater, ?_⟩
        rw [List.flatten_cons, List.length_append, ← Nat.add_assoc, ← hStop]
        exact hEnd

/-- The repetition of a language. -/
theorem repeated_recognises (hBody : body.Recognises L) (q : Quantifier) :
    (repeated q body).Recognises (q.powers L) := by
  intro pos stop
  constructor
  · rintro ⟨_, hRepeated, rfl⟩
    obtain ⟨o, hMem, rfl⟩ := List.mem_map.1 hRepeated
    obtain ⟨ws, hWords, hAllows, hReads, hStop⟩ :=
      iterations_sound hBody (fun _ _ => Nat.zero_le _) hMem
    rw [Nat.zero_add] at hAllows
    exact ⟨ws.flatten, ⟨ws.length, hAllows, Language.mem_pow.2 ⟨ws, rfl, rfl, hWords⟩⟩, hReads,
      hStop⟩
  · rintro ⟨w, hWord, hReads, rfl⟩
    obtain ⟨ws, hFactors, rfl⟩ := Quantifier.exists_factors hWord
    obtain ⟨o, hMem, hStop⟩ := iterations_complete hBody hFactors hReads
    exact ⟨_, List.mem_map_of_mem hMem, hStop⟩

/-! ## The other parts -/

theorem none_recognises : (none : Outcomes text.size _).Recognises 1 := by
  intro pos stop
  constructor
  · rintro ⟨o, hMem, rfl⟩
    rw [List.mem_singleton.1 hMem]
    exact ⟨[], rfl, readsAt_nil, rfl⟩
  · rintro ⟨w, rfl, -, rfl⟩
    exact ⟨_, List.mem_cons_self, rfl⟩

theorem more_recognises {item : Outcomes text.size (Repetition Trace)}
    {items : Outcomes text.size (List (Repetition Trace))} {M : Language Char}
    (hItem : item.Recognises L) (hItems : items.Recognises M) :
    (more item items).Recognises (L * M) := by
  intro pos stop
  constructor
  · rintro ⟨_, hMem, rfl⟩
    obtain ⟨first, hFirst, hRest⟩ := List.mem_flatMap.1 hMem
    obtain ⟨later, hLater, rfl⟩ := List.mem_map.1 hRest
    obtain ⟨u, hu, hReads, hStop⟩ := (hItem pos first.stop).1 ⟨first, hFirst, rfl⟩
    obtain ⟨v, hv, hReads', hStop'⟩ := (hItems first.stop later.stop).1 ⟨later, hLater, rfl⟩
    rw [← hStop] at hReads' hStop'
    refine ⟨u ++ v, Language.append_mem_mul hu hv, readsAt_append.2 ⟨hReads, hReads'⟩, ?_⟩
    rw [List.length_append, ← Nat.add_assoc]
    exact hStop'
  · rintro ⟨w, hWord, hReads, rfl⟩
    obtain ⟨u, hu, v, hv, rfl⟩ := Language.mem_mul.1 hWord
    obtain ⟨hReads, hReads'⟩ := readsAt_append.1 hReads
    obtain ⟨first, hFirst, hStop⟩ := (hItem pos _).2 ⟨u, hu, hReads, rfl⟩
    rw [← hStop] at hReads'
    obtain ⟨later, hLater, hStop'⟩ := (hItems first.stop _).2 ⟨v, hv, hReads', rfl⟩
    refine ⟨_, List.mem_flatMap.2 ⟨first, hFirst, List.mem_map_of_mem hLater⟩, ?_⟩
    rw [List.length_append, ← Nat.add_assoc, ← hStop]
    exact hStop'

theorem sequence_recognises {items : Outcomes text.size (List (Repetition Trace))}
    (h : items.Recognises L) : (sequence items).Recognises L := by
  intro pos stop
  rw [← h pos stop]
  simp [sequence]

theorem group_recognises (h : body.Recognises L) : (group body).Recognises L := by
  intro pos stop
  rw [← h pos stop]
  simp [group, Outcome.map]

theorem fail_recognises : (fail : Outcomes text.size Trace).Recognises 0 := by
  intro pos stop
  constructor
  · rintro ⟨o, hMem, -⟩
    cases hMem
  · rintro ⟨w, hWord, -⟩
    cases hWord

theorem orElse_recognises {later : Outcomes text.size Trace} {M : Language Char} (branch : Nat)
    (hFirst : body.Recognises L) (hLater : later.Recognises M) :
    (orElse branch body later).Recognises (L + M) := by
  intro pos stop
  simp only [Language.mem_add, or_and_right, exists_or]
  rw [← hFirst pos stop, ← hLater pos stop]
  simp [orElse, Outcome.map, or_and_right, exists_or]

theorem char_recognises (set : CharSet) :
    (char text set).Recognises (Regex.leaf set).language := by
  intro pos stop
  constructor
  · rintro ⟨o, hMem, rfl⟩
    change o ∈ (if text[pos]?.any set.accepts then _ else _) at hMem
    split at hMem
    · rename_i hAny
      obtain ⟨c, hChar, hAccepts⟩ := (Option.any_eq_true _ _).1 hAny
      rw [List.mem_singleton.1 hMem]
      exact ⟨[c], ⟨c, hAccepts, rfl⟩, readsAt_singleton.2 hChar, rfl⟩
    · cases hMem
  · rintro ⟨w, ⟨c, hAccepts, rfl⟩, hReads, rfl⟩
    have hChar := readsAt_singleton.1 hReads
    simp [char, hChar, hAccepts]

end Outcomes

/-! ## Regexes -/

mutual

/-- The outcomes of a regex end where the words of its language end. -/
theorem Regex.outcomes_recognise (text : Array Char) : ∀ r : Regex,
    (r.outcomes text).Recognises r.language
  | .seq items => Outcomes.sequence_recognises (itemsOutcomes_recognise text items)
  | .alt branches => branchesOutcomes_recognise text 0 branches
  | .group _ body => Outcomes.group_recognises (Regex.outcomes_recognise text body)
  | .leaf set => Outcomes.char_recognises set

theorem itemsOutcomes_recognise (text : Array Char) : ∀ items : List (Regex × Quantifier),
    (itemsOutcomes text items).Recognises (itemsLanguage items)
  | [] => Outcomes.none_recognises
  | (r, q) :: items =>
    Outcomes.more_recognises (Outcomes.repeated_recognises (Regex.outcomes_recognise text r) q)
      (itemsOutcomes_recognise text items)

theorem branchesOutcomes_recognise (text : Array Char) : ∀ (branch : Nat) (branches : List Regex),
    (branchesOutcomes text branch branches).Recognises (branchesLanguage branches)
  | _, [] => Outcomes.fail_recognises
  | branch, r :: branches =>
    Outcomes.orElse_recognises branch (Regex.outcomes_recognise text r)
      (branchesOutcomes_recognise text (branch + 1) branches)

end

end BacktrackRegex
