import BacktrackRegex.Regex
import BacktrackRegex.Trace.Basic

/-!
# From a trace to captures

The capture list of a match has the whole match as entry 0 and the match of capturing group `i` as
entry `i`.  Groups are not looked up by their numbers: a walk over regex and trace meets them in
order, and wherever it passes a part of the regex by — an item without iterations, a branch that
was not taken — it puts in as many absent entries as that part has groups.  Of several iterations
the last one counts.

* `Regex.groupSpans` — the spans of the groups, in order;
* `resolve` — the texts of the groups, trimmed.
-/

set_option autoImplicit false

namespace BacktrackRegex

/-! ## Spans of groups -/

/-- Entries for groups that took no part in the match. -/
def absentGroups (count : Nat) : List (Option Span) := List.replicate count none

mutual

/-- The spans of the capturing groups of a regex in the trace of its match, where `next` is the
place in the capture list of the first of them. -/
def Regex.groupSpans (next : Nat) : Regex → Trace → Except Fault (List (Option Span))
  | .seq items, .seq _ repetitions => itemsGroupSpans next items repetitions
  | .alt branches, .alt branch body => branchesGroupSpans next branch body branches
  | .group none body, .group _ t => body.groupSpans next t
  | .group (some id) body, .group span t =>
    if id = next then
      match body.groupSpans (next + 1) t with
      | .error f => .error f
      | .ok spans => .ok (some span :: spans)
    else .error (.groupOutOfOrder id)
  | .leaf _, .char _ => .ok []
  | _, _ => .error .traceMismatch

/-- The spans of the groups in the items of a sequence, each item in its last iteration. -/
def itemsGroupSpans (next : Nat) :
    List (Regex × Quantifier) → List (Repetition Trace) → Except Fault (List (Option Span))
  | [], [] => .ok []
  | (r, _) :: items, repetition :: repetitions =>
    match repetition.iterations.getLast? with
    | none =>
      match itemsGroupSpans (next + r.groupCount) items repetitions with
      | .error f => .error f
      | .ok later => .ok (absentGroups r.groupCount ++ later)
    | some t =>
      match r.groupSpans next t with
      | .error f => .error f
      | .ok spans =>
        match itemsGroupSpans (next + spans.length) items repetitions with
        | .error f => .error f
        | .ok later => .ok (spans ++ later)
  | _, _ => .error .traceMismatch

/-- The spans of the groups in the branches of an alternation, of which number `branch` was
taken. -/
def branchesGroupSpans (next branch : Nat) (t : Trace) :
    List Regex → Except Fault (List (Option Span))
  | [] => .error (.noBranch branch)
  | r :: branches =>
    match branch with
    | 0 =>
      match r.groupSpans next t with
      | .error f => .error f
      | .ok spans => .ok (spans ++ absentGroups (branchesGroupCount branches))
    | branch + 1 =>
      match branchesGroupSpans (next + r.groupCount) branch t branches with
      | .error f => .error f
      | .ok later => .ok (absentGroups r.groupCount ++ later)

end

/-! ## Texts of groups -/

/-- The part of the text that a span covers. -/
def slice (text : Array Char) (span : Span) : Except Fault String :=
  if span.stop ≤ text.size then
    .ok (String.ofList (text.extract span.start span.stop).toList)
  else .error .spanOutside

/-- The parts of the text that the present spans cover. -/
def sliceEntries (text : Array Char) :
    List (Option Span) → Except Fault (List (Option String))
  | [] => .ok []
  | none :: spans =>
    match sliceEntries text spans with
    | .error f => .error f
    | .ok entries => .ok (none :: entries)
  | some span :: spans =>
    match slice text span with
    | .error f => .error f
    | .ok entry =>
      match sliceEntries text spans with
      | .error f => .error f
      | .ok entries => .ok (some entry :: entries)

/-- The entries up to the last one that is present. -/
def dropTrailingAbsent (entries : List (Option String)) : List (Option String) :=
  (entries.reverse.dropWhile Option.isNone).reverse

/-- Drops the absent entries at the end; those before the last present one become empty texts,
except for entry 0, which stays as it is. -/
def trim (entries : List (Option String)) : List (Option String) :=
  match dropTrailingAbsent entries with
  | [] => []
  | whole :: groups => whole :: groups.map fun entry => some (entry.getD "")

/-- The capture list of a match: the whole match, then the groups, trimmed. -/
def resolve (r : Regex) (t : Trace) (text : Array Char) :
    Except Fault (List (Option String)) :=
  match r.groupSpans 1 t with
  | .error f => .error f
  | .ok spans =>
    if spans.length = r.groupCount then
      match sliceEntries text (some t.span :: spans) with
      | .error f => .error f
      | .ok entries => .ok (trim entries)
    else .error .captureCount

end BacktrackRegex
