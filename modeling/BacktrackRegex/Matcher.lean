import BacktrackRegex.Captures.Basic
import BacktrackRegex.Captures.Resolve
import BacktrackRegex.Log
import BacktrackRegex.Pattern.Parser
import BacktrackRegex.Search.Run
import BacktrackRegex.Text.Quoted

/-!
# Matchers

A matcher is a pattern compiled once and matched against many texts, always from their start.  The
plain calls use the limits the matcher was built with and report an exhausted search as no match,
with a warning in the log; the `try` calls take their limits and report exhaustion as such.

* `Matcher.build` — a matcher from a pattern and limits;
* `Matcher.tryCaptures`, `Matcher.captures` — the captures of a match;
* `Matcher.tryIsMatch`, `Matcher.isMatch` — whether there is a match;
* `Matcher.matchLength?` — its length in bytes.
-/

set_option autoImplicit false

namespace BacktrackRegex

/-- A compiled pattern with the limits of its searches. -/
structure Matcher where
  pattern : String
  program : Program
  /-- Number of capturing groups in the pattern. -/
  groupCount : Nat
  limits : Limits

namespace Matcher

/-! ## Messages -/

/-- The record of a pattern that has been compiled. -/
def compiledRecord (pattern : String) (groupCount : Nat) : LogRecord :=
  ⟨.debug, "compiled `" ++ pattern ++ "` with " ++ toString groupCount ++ " capture groups"⟩

/-- The record of a search without a match. -/
def mismatchRecord (pattern text : String) : LogRecord :=
  ⟨.trace, "`" ++ pattern ++ "` does not match " ++ quote text⟩

/-- The record of a match. -/
def matchRecord (pattern text : String) (entries : List (Option String)) : LogRecord :=
  ⟨.trace, "`" ++ pattern ++ "` matched " ++ quote text ++ ": " ++ quoteEntries entries⟩

/-- The record of a search that was given up at a limit. -/
def exhaustedRecord (pattern : String) (e : Exhaustion) : LogRecord :=
  ⟨.warn, "giving up on `" ++ pattern ++ "`: " ++ e.message⟩

/-! ## Building -/

/-- Compiles a pattern. -/
def build (pattern : String) (limits : Limits) : Logged (Except CompileError Matcher) :=
  match parse pattern with
  | .error e => ⟨.error e, []⟩
  | .ok r =>
    ⟨.ok { pattern, program := .compile r, groupCount := r.groupCount, limits },
      [compiledRecord pattern r.groupCount]⟩

/-- The regex that the pattern stands for. -/
def regex (m : Matcher) : Regex := m.program.regex

/-! ## Matching -/

/-- The captures of a match at the start of the text, within the given limits. -/
def tryCaptures (m : Matcher) (text : String) (limits : Limits) :
    Except Fault (Logged (Except Exhaustion (Option Captures))) :=
  let chars := text.toList.toArray
  match m.program.run chars limits with
  | .error f => .error f
  | .ok (.error e) => .ok ⟨.error e, []⟩
  | .ok (.ok none) => .ok ⟨.ok none, [mismatchRecord m.pattern text]⟩
  | .ok (.ok (some t)) =>
    match resolve m.regex t chars with
    | .error f => .error f
    | .ok entries => .ok ⟨.ok (some ⟨entries⟩), [matchRecord m.pattern text entries]⟩

/-- The captures of a match at the start of the text, within the limits of the matcher. -/
def captures (m : Matcher) (text : String) : Except Fault (Logged (Option Captures)) :=
  match m.tryCaptures text m.limits with
  | .error f => .error f
  | .ok ⟨.ok found, log⟩ => .ok ⟨found, log⟩
  | .ok ⟨.error e, log⟩ => .ok ⟨none, log ++ [exhaustedRecord m.pattern e]⟩

/-- Whether there is a match at the start of the text, within the given limits. -/
def tryIsMatch (m : Matcher) (text : String) (limits : Limits) :
    Except Fault (Logged (Except Exhaustion Bool)) :=
  match m.program.run text.toList.toArray limits with
  | .error f => .error f
  | .ok (.error e) => .ok ⟨.error e, []⟩
  | .ok (.ok found) => .ok ⟨.ok found.isSome, []⟩

/-- Whether there is a match at the start of the text, within the limits of the matcher. -/
def isMatch (m : Matcher) (text : String) : Except Fault (Logged Bool) :=
  match m.tryIsMatch text m.limits with
  | .error f => .error f
  | .ok ⟨.ok found, log⟩ => .ok ⟨found, log⟩
  | .ok ⟨.error e, log⟩ => .ok ⟨false, log ++ [exhaustedRecord m.pattern e]⟩

/-- Length in bytes of the match at the start of the text. -/
def matchLength? (m : Matcher) (text : String) : Except Fault (Logged (Option Nat)) :=
  match m.captures text with
  | .error f => .error f
  | .ok found => .ok (found.map fun c => c.map fun c => c.whole.utf8ByteSize)

end Matcher

/-- One match of a pattern against the start of a text, without limits. -/
def isMatch (text pattern : String) : Except CompileError (Except Fault Bool) :=
  match (Matcher.build pattern .unlimited).value with
  | .error e => .error e
  | .ok m =>
    match m.isMatch text with
    | .error f => .ok (.error f)
    | .ok found => .ok (.ok found.value)

end BacktrackRegex
