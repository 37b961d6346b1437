import BacktrackRegex.Proofs.Pattern.Refusal

/-!
# What the characters of a pattern are to the next one

Going over a pattern character by character, without reading it, shows at each place whether it lies
behind a backslash, in a class, and in how many groups.  A parenthesis in a class or behind a
backslash opens and closes nothing, and one that closes has nothing to close outside all groups.

* `Lexis` — what is known at a place; `Lexis.next` — one character further;
* `Lexis.closers` — the shortest text that closes what is open at a place;
* `Lexis.Passes` — going over a text that opens no group.
-/

set_option autoImplicit false

namespace BacktrackRegex

/-- A place in a pattern: in so many groups, and perhaps in a class, behind a backslash or both. -/
inductive Lexis where
  /-- Neither in a class nor behind a backslash. -/
  | plain (depth : Nat)
  /-- Behind a backslash. -/
  | escape (depth : Nat)
  /-- In a class. -/
  | members (depth : Nat)
  /-- Behind a backslash in a class. -/
  | memberEscape (depth : Nat)
  deriving DecidableEq, Repr

namespace Lexis

/-- The place one character further. -/
def next : Lexis → Char → Lexis
  | .plain depth, ch =>
    if ch = '\\' then .escape depth
    else if ch = '[' then .members depth
    else if ch = '(' then .plain (depth + 1)
    else if ch = ')' then .plain (depth - 1)
    else .plain depth
  | .escape depth, _ => .plain depth
  | .members depth, ch =>
    if ch = '\\' then .memberEscape depth
    else if ch = ']' then .plain depth
    else .members depth
  | .memberEscape depth, _ => .members depth

/-- The place after a text. -/
def across (l : Lexis) (s : List Char) : Lexis := s.foldl next l

/-- The place that a text from the start of a pattern leads to. -/
def after (s : List Char) : Lexis := (plain 0).across s

/-- In how many groups the place lies. -/
def openGroups : Lexis → Nat
  | .plain depth => depth
  | .escape depth => depth
  | .members depth => depth
  | .memberEscape depth => depth

/-- The place lies in a class. -/
def inClass : Lexis → Bool
  | .plain _ => false
  | .escape _ => false
  | .members _ => true
  | .memberEscape _ => true

/-- The character opens a group. -/
def opens : Lexis → Char → Bool
  | .plain _, ch => ch == '('
  | .escape _, _ => false
  | .members _, _ => false
  | .memberEscape _, _ => false

/-- What closes the class and then the groups that are open. -/
def closers (l : Lexis) : List Char :=
  (if l.inClass then [']'] else []) ++ List.replicate l.openGroups ')'

/-- The groups that count as open when reading fails before `rest`: those that are open, but for the
innermost one if nothing is missing but its parenthesis. -/
def unclosed (l : Lexis) (rest : List Char) : Nat :=
  if rest = [] ∧ l.inClass = false then l.openGroups - 1 else l.openGroups

/-- The text ends with the parenthesis that opens a group. -/
def EndsOpening (s : List Char) : Prop :=
  ∃ before depth, s = before ++ ['('] ∧ after before = .plain depth

theorem unclosed_of_ne_nil (l : Lexis) {rest : List Char} (h : rest ≠ []) :
    l.unclosed rest = l.openGroups :=
  if_neg fun hEnd => h hEnd.1

theorem unclosed_members (depth : Nat) (rest : List Char) :
    (members depth).unclosed rest = depth :=
  if_neg fun hEnd => by cases hEnd.2

theorem across_append (l : Lexis) (s t : List Char) : l.across (s ++ t) = (l.across s).across t :=
  List.foldl_append

theorem after_append (s t : List Char) : after (s ++ t) = (after s).across t :=
  across_append _ s t

theorem closers_members (depth : Nat) :
    (members depth).closers = ']' :: List.replicate depth ')' :=
  rfl

/-! ## Texts that open no group -/

/-- Going over the text leads from one place to another, and no group is opened on the way. -/
inductive Passes : Lexis → List Char → Lexis → Prop
  | nil (l : Lexis) : Passes l [] l
  | cons {l l' : Lexis} {ch : Char} {s : List Char} (hQuiet : l.opens ch = false)
    (h : Passes (l.next ch) s l') : Passes l (ch :: s) l'

theorem Passes.across {l l' : Lexis} {s : List Char} (h : Passes l s l') : l.across s = l' := by
  induction h with
  | nil => rfl
  | cons _ _ ih => exact ih

theorem Passes.append {l l₁ l₂ : Lexis} {s t : List Char} (h : Passes l s l₁)
    (h' : Passes l₁ t l₂) : Passes l (s ++ t) l₂ := by
  induction h with
  | nil => exact h'
  | cons hQuiet _ ih => exact .cons hQuiet (ih h')

/-- Characters that mean nothing to a place leave it as it is. -/
theorem passes_plain {s : List Char} (h : ∀ ch ∈ s, ch ∉ ['\\', '[', '(', ')']) (depth : Nat) :
    Passes (plain depth) s (plain depth) := by
  induction s with
  | nil => exact .nil _
  | cons ch s ih =>
    have hNothing := h ch List.mem_cons_self
    simp only [List.mem_cons, List.not_mem_nil, or_false, not_or] at hNothing
    obtain ⟨hSlash, hBracket, hOpen, hClose⟩ := hNothing
    have hNext : (plain depth).next ch = plain depth := by
      simp only [next, if_neg hSlash, if_neg hBracket, if_neg hOpen, if_neg hClose]
    refine .cons (by simpa [opens] using hOpen) ?_
    rw [hNext]
    exact ih fun d hd => h d (List.mem_cons_of_mem ch hd)

/-- Outside all groups a closing parenthesis closes nothing. -/
theorem passes_unmatched : Passes (plain 0) [')'] (plain 0) :=
  .cons rfl (.nil _)

/-- What a backslash stands before means nothing. -/
theorem passes_escape (depth : Nat) (ch : Char) :
    Passes (plain depth) ['\\', ch] (plain depth) :=
  .cons rfl (.cons rfl (.nil _))

theorem passes_memberEscape (depth : Nat) (ch : Char) :
    Passes (members depth) ['\\', ch] (members depth) :=
  .cons rfl (.cons rfl (.nil _))

theorem passes_member {ch : Char} (hSlash : ch ≠ '\\') (hClose : ch ≠ ']') (depth : Nat) :
    Passes (members depth) [ch] (members depth) := by
  refine .cons rfl ?_
  rw [show (members depth).next ch = members depth by
    simp only [next, if_neg hSlash, if_neg hClose]]
  exact .nil _

end Lexis

end BacktrackRegex
