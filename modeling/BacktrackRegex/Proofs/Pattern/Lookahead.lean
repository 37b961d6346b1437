import BacktrackRegex.Proofs.Pattern.Lexis

/-!
# How far a reader looks ahead for a quantifier

A quantifier that is read is a text of its own: whatever else comes after that text, the same is
read.  A quantifier that is not read is another matter, since what is not there has been looked for
further on in the text.  But the look goes over digits, commas and closing braces only, so nothing
has to be said about what comes after any other character.

* `Takes` — a reading that depends on one text only;
* `Bare` — no quantifier is read, and none is refused; `Bare.exchange` — with another end;
* `readQuantifier_takes` — what is read;
* `Withheld`, `readQuantifier_error` — what comes before a quantifier that is refused.
-/

set_option autoImplicit false

namespace BacktrackRegex

open Grammar

/-- The same place with another text left to read. -/
def Cursor.withRest (c : Cursor) (s : List Char) : Cursor := { c with rest := s }

/-- Reading `a` at `c` goes over `text` to `c'`, and would with anything else after this text. -/
structure Takes {α : Type} (read : Cursor → Reading α) (c : Cursor) (a : α) (c' : Cursor)
    (text : List Char) : Prop where
  passes : c.Passes text c'
  again : ∀ s, read (c.withRest (text ++ s)) = .ok (a, c'.withRest s)

variable {c c' : Cursor} {s t u : List Char} {ch : Char}

namespace Cursor

@[simp] theorem withRest_rest (c : Cursor) (s : List Char) : (c.withRest s).rest = s := rfl

@[simp] theorem withRest_pos (c : Cursor) (s : List Char) : (c.withRest s).pos = c.pos := rfl

@[simp] theorem withRest_nextId (c : Cursor) (s : List Char) :
    (c.withRest s).nextId = c.nextId := rfl

@[simp] theorem withRest_self (c : Cursor) : c.withRest c.rest = c := rfl

/-- The next character is gone over whatever comes after it. -/
theorem withRest_next (h : c.rest = ch :: s) (t : List Char) :
    (c.withRest (ch :: t)).next = c.next.withRest t := by
  rw [next_of_cons h]
  rfl

theorem Passes.nil (c : Cursor) : c.Passes [] c :=
  ⟨rfl, rfl⟩

end Cursor

/-! ## Digits and what follows them -/

theorem decimalValue_le_append_right (digits more : List Char) :
    decimalValue digits ≤ decimalValue (digits ++ more) := by
  induction more using List.reverseRecOn with
  | nil => rw [List.append_nil]
  | append_singleton more d ih =>
    rw [← List.append_assoc]
    refine ih.trans ?_
    simp only [decimalValue, List.foldl_append, List.foldl_cons, List.foldl_nil]
    omega

namespace Grammar

/-- The characters that a brace form has after its opening brace. -/
def InBraces (ch : Char) : Prop := ch.isDigit = true ∨ ch = ',' ∨ ch = '\x7d'

theorem inBraces_comma : InBraces ',' := .inr (.inl rfl)

theorem inBraces_brace : InBraces '\x7d' := .inr (.inr rfl)

theorem inBraces_digits {digits : List Char} (h : ∀ d ∈ digits, d.isDigit = true) :
    ∀ d ∈ digits, InBraces d :=
  fun d hd => .inl (h d hd)

/-- No brace form goes on in the text from somewhere before it. -/
def Stops (s : List Char) : Prop := ∀ ch t, s = ch :: t → ¬ InBraces ch

theorem stops_cons (h : ¬ InBraces ch) (s : List Char) : Stops (ch :: s) := by
  rintro _ _ ⟨⟩
  exact h

theorem Stops.noDigit (h : Stops s) : NoDigit s := by
  intro ch t hs
  by_contra hDigit
  exact h ch t hs (.inl (by simpa using hDigit))

/-- A text that begins like a brace form cannot reach into a text that stops it. -/
theorem Stops.inside {form inner rest : List Char} (h : Stops u) (hForm : form ≠ [])
    (hInner : ∀ d ∈ inner, InBraces d) (hSplit : form ++ u = ch :: inner ++ rest) :
    ∃ w, form = ch :: inner ++ w ∧ rest = w ++ u := by
  rcases List.append_eq_append_iff.1 hSplit with ⟨w, hEnd, hRest⟩ | ⟨w, hBegin, hRest⟩
  · cases w with
    | nil => exact ⟨[], by simpa using hEnd.symm, by simpa using hRest.symm⟩
    | cons d w =>
      -- The first character that would be beyond `form` is inside the braces and stops them.
      obtain ⟨x, form, rfl⟩ := List.exists_cons_of_ne_nil hForm
      obtain ⟨-, hInner'⟩ := List.cons.inj hEnd
      have hMember : d ∈ inner := by
        rw [hInner']
        simp
      exact absurd (hInner d hMember) (h d _ hRest)
  · exact ⟨w, hBegin, hRest⟩

/-- The text of an upper bound, which is one with anything else after it. -/
theorem UpperBound.text {min : Nat} {max : Option Nat} (h : UpperBound min s max t) :
    ∃ inner, s = inner ++ t ∧ (∀ d ∈ inner, InBraces d) ∧
      ∀ t', UpperBound min (inner ++ t') max t' := by
  cases h with
  | same =>
    exact ⟨['\x7d'], rfl, List.forall_mem_singleton.2 inBraces_brace, fun t' => .same t'⟩
  | absent => exact ⟨[',', '\x7d'], rfl, by simp [InBraces], fun t' => .absent t'⟩
  | given h =>
    obtain @⟨digits, hSome, hDigits⟩ := h
    refine ⟨',' :: digits ++ ['\x7d'], by simp, ?_, fun t' => ?_⟩
    · have hOpen := List.forall_mem_cons.2 ⟨inBraces_comma, inBraces_digits hDigits⟩
      exact List.forall_mem_append.2 ⟨hOpen, List.forall_mem_singleton.2 inBraces_brace⟩
    · rw [List.cons_append, List.cons_append, List.append_assoc]
      exact .given (.intro hSome hDigits ('\x7d' :: t'))

/-- The text of a brace form, which is one with anything else after it. -/
theorem BraceForm.text {min : Nat} {max : Option Nat} (h : BraceForm s min max t) :
    ∃ inner, s = '\x7b' :: inner ++ t ∧ (∀ d ∈ inner, InBraces d) ∧
      ∀ t', BraceForm ('\x7b' :: inner ++ t') min max t' := by
  cases h with
  | intro hMin hMax =>
    obtain @⟨digits, hSome, hDigits⟩ := hMin
    obtain ⟨inner, rfl, hInner, hAgain⟩ := hMax.text
    refine ⟨digits ++ inner, by simp, ?_, fun t' => ?_⟩
    · exact List.forall_mem_append.2 ⟨inBraces_digits hDigits, hInner⟩
    · rw [List.cons_append, List.append_assoc]
      exact .intro (.intro hSome hDigits _) (hAgain t')

/-- The text of a bound, its digits after what comes before them. -/
theorem BoundAt.text {opening : List Char} {n : Nat} (h : BoundAt opening n s) :
    ∃ inner digits t, opening = '\x7b' :: inner ∧ s = digits ++ t ∧
      (∀ d ∈ inner ++ digits, InBraces d) ∧ n = decimalValue digits ∧ NoDigit t ∧
      ∀ more t', (∀ d ∈ more, d.isDigit = true) → NoDigit t' →
        BoundAt opening (decimalValue (digits ++ more)) (digits ++ more ++ t') := by
  cases h with
  | lower hNumber hNext =>
    obtain @⟨digits, hSome, hDigits⟩ := hNumber
    refine ⟨[], digits, _, rfl, rfl, inBraces_digits hDigits, rfl, hNext, ?_⟩
    intro more t' hMore hNext'
    have hRun := List.forall_mem_append.2 ⟨hDigits, hMore⟩
    exact .lower (.intro (by simp [hSome]) hRun t') hNext'
  | @upper before _ _ _ hBefore hBeforeDigits hNumber hNext =>
    obtain @⟨digits, hSome, hDigits⟩ := hNumber
    have hOpening : ∀ d ∈ before ++ [','], InBraces d := List.forall_mem_append.2
      ⟨inBraces_digits hBeforeDigits, List.forall_mem_singleton.2 inBraces_comma⟩
    refine ⟨before ++ [','], digits, _, rfl, rfl, ?_, rfl, hNext, ?_⟩
    · exact List.forall_mem_append.2 ⟨hOpening, inBraces_digits hDigits⟩
    · intro more t' hMore hNext'
      have hRun := List.forall_mem_append.2 ⟨hDigits, hMore⟩
      exact .upper hBefore hBeforeDigits (.intro (by simp [hSome]) hRun t') hNext'

end Grammar

/-! ## No quantifier -/

/-- The text begins neither with a quantifier nor with a bound that is too large. -/
structure Bare (s : List Char) : Prop where
  head : ∀ ch t, s = ch :: t → ch ∉ ['*', '+', '?']
  noForm : ¬ OpensBraces s
  fits : BoundsFit s

theorem bare_of_head (h : ∀ ch t, s = ch :: t → ch ∉ ['*', '+', '?', '\x7b']) : Bare s := by
  have hBrace : ∀ t, s ≠ '\x7b' :: t := by
    rintro t rfl
    exact h _ _ rfl (by decide)
  refine ⟨fun ch t hs => ?_, ?_, ?_⟩
  · have := h ch t hs
    simp_all
  · rintro ⟨min, max, t, hForm⟩
    obtain ⟨inner, hs, -⟩ := hForm.text
    exact hBrace _ hs
  · intro opening n after hs hBound
    obtain ⟨inner, digits, t, rfl, -⟩ := hBound.text
    exact (hBrace _ hs).elim

/-- What stops brace forms can be put in the place of what comes after a text without quantifier,
if anything is left of that text. -/
theorem Bare.exchange {form : List Char} (h : Bare (form ++ t)) (hForm : form ≠ [])
    (hStops : Stops u) : Bare (form ++ u) := by
  refine ⟨fun ch v hv => ?_, ?_, ?_⟩
  · obtain ⟨d, form, rfl⟩ := List.exists_cons_of_ne_nil hForm
    obtain ⟨rfl, -⟩ := List.cons.inj hv
    exact h.head d (form ++ t) rfl
  · rintro ⟨min, max, v, hBraces⟩
    obtain ⟨inner, hSplit, hInner, hAgain⟩ := hBraces.text
    obtain ⟨w, rfl, -⟩ := hStops.inside hForm hInner hSplit
    refine h.noForm ⟨min, max, w ++ t, ?_⟩
    rw [List.append_assoc]
    exact hAgain (w ++ t)
  · -- With the other end the digits of a bound may go on, but they do not denote less.
    intro opening n after hSplit hBound
    obtain ⟨inner, digits, v, rfl, rfl, hInner, rfl, -, hAgain⟩ := hBound.text
    have hSplit' : form ++ u = '\x7b' :: (inner ++ digits) ++ v := by
      simpa using hSplit
    obtain ⟨w, rfl, -⟩ := hStops.inside hForm hInner hSplit'
    refine Nat.lt_of_le_of_lt (decimalValue_le_append_right digits
      ((w ++ t).takeWhile Char.isDigit)) (h.fits ('\x7b' :: inner) _ _ ?_ (hAgain _ _
        (List.all_eq_true.1 List.all_takeWhile) (noDigit_dropWhile (w ++ t))))
    rw [List.append_assoc digits, List.takeWhile_append_dropWhile]
    simp

theorem readQuantifier_of_bare (h : Bare c.rest) : readQuantifier c = .ok (.once, c) := by
  cases hRest : c.rest with
  | nil => simp only [readQuantifier, hRest]
  | cons ch s =>
    by_cases hBrace : ch = '\x7b'
    · rw [hBrace] at hRest
      exact (readQuantifier_of_unfinished hRest h.noForm).1 h.fits
    · have hHead := h.head ch s hRest
      simp only [List.mem_cons, List.not_mem_nil, or_false, not_or] at hHead
      unfold readQuantifier
      split
      case h_5 => rfl
      all_goals
        rename_i hRest'
        obtain ⟨rfl, -⟩ := List.cons.inj (hRest.symm.trans hRest')
        simp at hHead hBrace

/-! ## Quantifiers -/

theorem takeWhile_isDigit_append {digits : List Char} (hDigits : ∀ d ∈ digits, d.isDigit = true)
    (h : NoDigit s) :
    (digits ++ s).takeWhile Char.isDigit = digits ∧ (digits ++ s).dropWhile Char.isDigit = s := by
  have hTake : s.takeWhile Char.isDigit = [] := by
    cases s with
    | nil => rfl
    | cons d t => simp [h d t rfl]
  have hDrop : s.dropWhile Char.isDigit = s := by
    cases s with
    | nil => rfl
    | cons d t => simp [h d t rfl]
  rw [List.takeWhile_append_of_pos hDigits, List.dropWhile_append_of_pos hDigits, hTake, hDrop,
    List.append_nil]
  exact ⟨rfl, rfl⟩

/-- The digits of a number are read again before anything but another digit. -/
theorem readNumber_takes {n : UInt32} (h : readNumber c = .ok (some n, c')) :
    ∃ digits, c.Passes digits c' ∧ digits ≠ [] ∧ (∀ d ∈ digits, d.isDigit = true) ∧
      decimalValue digits = n.toNat ∧
      ∀ s, NoDigit s → readNumber (c.withRest (digits ++ s)) = .ok (some n, c'.withRest s) := by
  unfold readNumber at h
  split at h
  · cases h
  rename_i hSome
  split at h <;> cases h
  rename_i hFits
  refine ⟨c.rest.takeWhile Char.isDigit, ⟨List.takeWhile_append_dropWhile.symm, rfl⟩, hSome,
    List.all_eq_true.1 List.all_takeWhile, (UInt32.toNat_ofNatLT).symm, fun s hs => ?_⟩
  obtain ⟨hTake, hDrop⟩ :=
    takeWhile_isDigit_append (List.all_eq_true.1 (List.all_takeWhile (l := c.rest))) hs
  unfold readNumber
  rw [Cursor.withRest_rest]
  simp only [hTake, hDrop, dif_pos hFits]
  rfl

/-- What comes between the first bound and the closing brace is read again before this brace. -/
theorem readUpperBound_takes {min : UInt32} {max : Option UInt32}
    (h : readUpperBound min c = .ok (max, c')) :
    ∃ text, c.Passes text c' ∧ (∀ d ∈ text, InBraces d) ∧
      ∀ s, NoDigit (text ++ '\x7d' :: s) ∧
        readUpperBound min (c.withRest (text ++ '\x7d' :: s)) =
          .ok (max, c'.withRest ('\x7d' :: s)) := by
  unfold readUpperBound at h
  split at h
  · rename_i hComma
    have hPasses := Cursor.passes_next hComma
    cases max with
    | none =>
      obtain ⟨rfl, -⟩ := readNumber_none h
      refine ⟨[','], hPasses, List.forall_mem_singleton.2 inBraces_comma,
        fun s => ⟨noDigit_cons (by decide) _, ?_⟩⟩
      simp only [readUpperBound, List.singleton_append, Cursor.withRest_rest,
        Cursor.withRest_next hComma]
      rfl
    | some max =>
      obtain ⟨digits, hDigits, -, hRun, -, hAgain⟩ := readNumber_takes h
      refine ⟨',' :: digits, hPasses.trans hDigits, ?_, fun s => ⟨noDigit_cons (by decide) _, ?_⟩⟩
      · exact List.forall_mem_cons.2 ⟨inBraces_comma, inBraces_digits hRun⟩
      · simp only [readUpperBound, List.cons_append, Cursor.withRest_rest,
          Cursor.withRest_next hComma]
        exact hAgain _ (noDigit_cons (by decide) s)
  · cases h
    refine ⟨[], .nil c, by simp, fun s => ⟨noDigit_cons (by decide) _, ?_⟩⟩
    simp only [readUpperBound, List.nil_append, Cursor.withRest_rest]
    rfl

/-- Either a brace form is read, which takes its own text only, or the braces are left alone. -/
theorem readBraces_takes {q : Quantifier} (hRest : c.rest = '\x7b' :: s)
    (h : readBraces c = .ok (q, c')) :
    (q = .once ∧ c' = c) ∨ ∃ inner, Takes readBraces c q c' ('\x7b' :: inner) ∧
      ∀ d ∈ inner, InBraces d := by
  have hBrace := Cursor.passes_next hRest
  unfold readBraces at h
  split at h
  · cases h
  · cases h
    exact .inl ⟨rfl, rfl⟩
  · rename_i min c₁ hMin
    obtain ⟨digits, hDigits, -, hRun, -, hMinAgain⟩ := readNumber_takes hMin
    split at h
    · cases h
    rename_i max c₂ hMax
    obtain ⟨bound, hBound, hInner, hMaxAgain⟩ := readUpperBound_takes hMax
    split at h
    · rename_i t hClose
      split at h <;> cases h
      rename_i hOrder
      have hPasses := ((hBrace.trans hDigits).trans hBound).trans (Cursor.passes_next hClose)
      refine .inr ⟨digits ++ bound ++ ['\x7d'], ⟨by simpa using hPasses, fun u => ?_⟩, ?_⟩
      · obtain ⟨hNoDigit, hMaxAgain⟩ := hMaxAgain u
        simp only [readBraces, List.cons_append, List.append_assoc, List.nil_append,
          Cursor.withRest_next hRest, hMinAgain _ hNoDigit, hMaxAgain, Cursor.withRest_rest]
        rw [if_neg hOrder, Cursor.withRest_next hClose]
      · have hBounds := List.forall_mem_append.2 ⟨inBraces_digits hRun, hInner⟩
        exact List.forall_mem_append.2 ⟨hBounds, List.forall_mem_singleton.2 inBraces_brace⟩
    · cases h
      exact .inl ⟨rfl, rfl⟩

theorem passes_braces {inner : List Char} (h : ∀ d ∈ inner, InBraces d) (depth : Nat) :
    (Lexis.plain depth).Passes ('\x7b' :: inner) (.plain depth) := by
  refine Lexis.passes_plain (fun ch hch => ?_) depth
  rcases List.mem_cons.1 hch with rfl | hch
  · decide
  · rintro hMeans
    simp only [List.mem_cons, List.not_mem_nil, or_false] at hMeans
    have hInner := h ch hch
    rcases hMeans with rfl | rfl | rfl | rfl <;> simp [InBraces] at hInner

theorem Grammar.Quantified.length_lt {q : Quantifier} (h : Quantified s q t) :
    t.length < s.length := by
  cases h with
  | star => exact Nat.lt_succ_self _
  | plus => exact Nat.lt_succ_self _
  | mark => exact Nat.lt_succ_self _
  | braces hForm _ =>
    obtain ⟨inner, rfl, -⟩ := hForm.text
    simp only [List.cons_append, List.length_cons, List.length_append]
    omega

/-- Where a brace is left alone, no quantifier stands. -/
theorem bare_of_readBraces (hRest : c.rest = '\x7b' :: s) (h : readBraces c = .ok (.once, c)) :
    Bare c.rest := by
  have hQuantifier : readQuantifier c = .ok (.once, c) := by
    rw [← h]
    simp only [readQuantifier, hRest]
  have hForm : ¬ OpensBraces c.rest := by
    rcases readBraces_spec hRest h with hQuantified | ⟨-, -, hForm⟩
    · exact absurd hQuantified.length_lt (Nat.lt_irrefl _)
    · exact hForm
  refine ⟨fun ch t ht => ?_, hForm, ?_⟩
  · obtain ⟨rfl, -⟩ := List.cons.inj (hRest.symm.trans ht)
    decide
  · by_contra hLarge
    obtain ⟨f, -, -, hError, -⟩ := (readQuantifier_of_unfinished hRest hForm).2 hLarge
    cases hQuantifier.symm.trans hError

/-- A quantifier of one character. -/
theorem takes_sign {q : Quantifier} (hRest : c.rest = ch :: s) (hPlain : ch ∉ ['\\', '[', '(', ')'])
    (hRead : ∀ (c : Cursor) (s : List Char), c.rest = ch :: s →
      readQuantifier c = .ok (q, c.next)) :
    ∃ text, Takes readQuantifier c q c.next text ∧
      ∀ depth, (Lexis.plain depth).Passes text (.plain depth) := by
  refine ⟨[ch], ⟨Cursor.passes_next hRest, fun u => ?_⟩, Lexis.passes_plain (by simpa using hPlain)⟩
  rw [List.singleton_append, hRead _ u rfl, Cursor.withRest_next hRest]

/-- Either the text that is read does not depend on what follows, or nothing is read. -/
theorem readQuantifier_takes {q : Quantifier} (h : readQuantifier c = .ok (q, c')) :
    (q = .once ∧ c' = c ∧ Bare c.rest) ∨
      ∃ text, Takes readQuantifier c q c' text ∧
        ∀ depth, (Lexis.plain depth).Passes text (.plain depth) := by
  unfold readQuantifier at h
  split at h
  case h_4 hRest =>
    rcases readBraces_takes hRest h with ⟨rfl, rfl⟩ | ⟨inner, hTakes, hInner⟩
    · exact .inl ⟨rfl, rfl, bare_of_readBraces hRest h⟩
    · exact .inr ⟨_, ⟨hTakes.passes, hTakes.again⟩, passes_braces hInner⟩
  case h_5 hRest =>
    cases h
    refine .inl ⟨rfl, rfl, bare_of_head fun ch t ht => ?_⟩
    simp_all
  all_goals
    rename_i hRest
    cases h
    exact .inr (takes_sign hRest (by decide) fun c s hc => by simp only [readQuantifier, hc])

/-! ## Quantifiers that are refused -/

/-- What comes before a bound or a form that is refused: nothing, the brace, or the brace with a
first bound that fits and the comma after it. -/
inductive Withheld : List Char → Prop
  | form : Withheld []
  | lower : Withheld ['\x7b']
  | upper {digits : List Char} (hSome : digits ≠ []) (hDigits : ∀ d ∈ digits, d.isDigit = true)
    (hFits : decimalValue digits < UInt32.size) : Withheld ('\x7b' :: digits ++ [','])

theorem Withheld.lexis {opening : List Char} (h : Withheld opening) (depth : Nat) :
    (Lexis.plain depth).Passes opening (.plain depth) := by
  cases h with
  | form => exact .nil _
  | lower => exact passes_braces (by simp) depth
  | @upper digits hSome hDigits hFits =>
    exact passes_braces (List.forall_mem_append.2
      ⟨inBraces_digits hDigits, List.forall_mem_singleton.2 inBraces_comma⟩) depth

/-- If nothing else comes in the place of what is refused, the braces are no quantifier. -/
theorem Withheld.bare {opening : List Char} (h : Withheld opening) (hBare : Bare s)
    (hStops : Stops s) : Bare (opening ++ s) := by
  cases h with
  | form => exact hBare
  | lower =>
    refine ⟨?_, not_opensBraces_of_noDigit hStops.noDigit, boundsFit_of_noDigit hStops.noDigit⟩
    rintro _ _ ⟨⟩
    decide
  | @upper digits hSome hDigits hFits =>
    have hComma : NoDigit (',' :: s) := noDigit_cons (by decide) s
    have hNumber := Number.intro hSome hDigits (',' :: s)
    rw [List.append_assoc, List.cons_append]
    refine ⟨?_, ?_, ?_⟩
    · rintro _ _ ⟨⟩
      decide
    · rintro ⟨min, max, t, hForm⟩
      obtain ⟨hMin, hMax⟩ := hForm
      obtain ⟨-, rfl⟩ := hMin.unique hNumber hMax.noDigit hComma
      cases hMax with
      | absent => exact hStops _ _ rfl inBraces_brace
      | given hMax => exact hMax.not_noDigit hStops.noDigit
    · intro opening n after hSplit hBound
      cases hBound with
      | lower hLower hNext =>
        obtain ⟨-, rfl⟩ := List.cons.inj hSplit
        obtain ⟨rfl, -⟩ := hLower.unique hNumber hNext hComma
        exact hFits
      | @upper before _ _ _ hBefore hBeforeDigits hUpper hNext =>
        have hSplit' : digits ++ ',' :: s = before ++ ',' :: after := by
          simpa using hSplit
        have hFirst := Number.intro hBefore hBeforeDigits (',' :: after)
        rw [← hSplit'] at hFirst
        obtain ⟨-, hRest⟩ := hFirst.unique hNumber (noDigit_cons (by decide) after) hComma
        obtain ⟨-, rfl⟩ := List.cons.inj hRest
        exact (hUpper.not_noDigit hStops.noDigit).elim

theorem readBraces_withheld {f : Failure} (hRest : c.rest = '\x7b' :: s)
    (h : readBraces c = .error f) :
    ∃ opening t, c.rest = opening ++ t ∧ t ≠ [] ∧ f.position = c.pos + byteLength opening ∧
      Withheld opening := by
  have hBrace := Cursor.passes_next hRest
  unfold readBraces at h
  split at h
  · rename_i hMin
    cases h
    obtain ⟨⟨n, t, hNumber, -⟩, -, hPosition⟩ := readNumber_error hMin
    exact ⟨['\x7b'], _, hBrace.rest, hNumber.ne_nil, hPosition.trans hBrace.pos, .lower⟩
  · cases h
  · rename_i min c₁ hMin
    obtain ⟨digits, hDigits, hSome, hRun, hValue, -⟩ := readNumber_takes hMin
    split at h
    · rename_i hMax
      cases h
      obtain ⟨t, hComma, hUpper⟩ := readUpperBound_error hMax
      obtain ⟨⟨n, u, hNumber, -⟩, -, hPosition⟩ := readNumber_error hUpper
      have hPasses := (hBrace.trans hDigits).trans (Cursor.passes_next hComma)
      exact ⟨_, _, hPasses.rest, hNumber.ne_nil, hPosition.trans hPasses.pos,
        .upper hSome hRun (hValue ▸ min.toNat_lt)⟩
    · split at h
      · split at h <;> cases h
        exact ⟨[], _, rfl, by simp [hRest], rfl, .form⟩
      · cases h

/-- Where a quantifier is refused, what comes before is no quantifier yet. -/
theorem readQuantifier_error {f : Failure} (h : readQuantifier c = .error f) :
    f.cause = .invalidRepetition ∧ ∃ opening t, c.rest = opening ++ t ∧ t ≠ [] ∧
      f.position = c.pos + byteLength opening ∧ Withheld opening := by
  unfold readQuantifier at h
  split at h
  case h_4 hRest => exact ⟨(readBraces_error hRest h).1, readBraces_withheld hRest h⟩
  all_goals cases h

end BacktrackRegex
