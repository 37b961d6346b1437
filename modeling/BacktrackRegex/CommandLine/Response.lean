import BacktrackRegex.CommandLine.Arguments
import BacktrackRegex.Matcher

/-!
# What the command line answers

The first line of standard input is matched.  A match prints its captures, one line for each, and
ends with exit code 0; no match and an exhausted search print nothing and end with 1.  A failure
ends with 1 and a report on standard error.

* `prepare` — the matcher that the arguments ask for;
* `firstLine?` — the line that is matched;
* `respond` — the answer of a matcher to its input;
* `runCommand` — the whole call.
-/

set_option autoImplicit false

namespace BacktrackRegex

/-- What a call writes and ends with. -/
structure Response where
  exitCode : UInt32
  stdout : String
  stderr : String
  deriving DecidableEq, Repr

/-- Why a call failed, and what lies behind it. -/
structure Report where
  message : String
  cause : Option String
  deriving DecidableEq, Repr

/-- A text with every line of it but the first set in by four blanks. -/
def indentLines (text : String) : String :=
  String.ofList (text.toList.flatMap fun c => if c = '\n' then "\n    ".toList else [c])

/-- A report as it is printed: the message and, in a paragraph of its own, the cause. -/
def Report.render (r : Report) : String :=
  match r.cause with
  | none => "Error: " ++ r.message ++ "\n"
  | some cause => "Error: " ++ r.message ++ "\n\nCaused by:\n    " ++ indentLines cause ++ "\n"

/-- The response of a call that failed. -/
def Report.response (r : Report) : Response := ⟨1, "", r.render⟩

/-- The matcher that the arguments ask for. -/
def prepare (arguments : List String) : Except Report Matcher :=
  match Arguments.ofList arguments with
  | .error e => .error ⟨e.message, e.cause?⟩
  | .ok { pattern, steps } =>
    match (Matcher.build pattern { steps }).value with
    | .error e => .error ⟨"cannot compile pattern '" ++ pattern ++ "'", some e.message⟩
    | .ok m => .ok m

/-- The byte that ends a line. -/
def newline : UInt8 := 10

/-- The text before the first line end, or all of it if there is none; nothing if it is not
UTF-8. -/
def firstLine? (input : List UInt8) : Option String :=
  String.fromUTF8? ⟨(input.takeWhile (· != newline)).toArray⟩

/-- One line for each capture, from number `i` on. -/
def captureLines (i : Nat) : List (Option String) → String
  | [] => ""
  | entry :: entries =>
    toString i ++ ": " ++ entry.getD "" ++ "\n" ++ captureLines (i + 1) entries

/-- The answer of a matcher to standard input.  The records that the matcher logs are not part of
it.  This assumes that the environment leaves the logger of the process as it is by default: it then
writes nothing but records of errors, and a matcher logs none of those (`LogLevel`). -/
def respond (m : Matcher) (input : List UInt8) : Except Fault Response :=
  match firstLine? input with
  | none =>
    .ok (Report.response
      ⟨"failed to read input line", some "stream did not contain valid UTF-8"⟩)
  | some line =>
    match m.captures line with
    | .error f => .error f
    | .ok ⟨none, _⟩ => .ok ⟨1, "", ""⟩
    | .ok ⟨some c, _⟩ => .ok ⟨0, captureLines 0 c.entries, ""⟩

/-- A call with these arguments and this standard input. -/
def runCommand (arguments : List String) (input : List UInt8) : Except Fault Response :=
  match prepare arguments with
  | .error r => .ok r.response
  | .ok m => respond m input

end BacktrackRegex
