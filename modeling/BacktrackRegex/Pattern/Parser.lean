import BacktrackRegex.Fault
import BacktrackRegex.Pattern.Reader

/-!
# Parsing patterns

* `parse` — a whole pattern as a regex;
* `Parser` — a parser that keeps its place: it can be asked again, from where it stands or after
  being moved, and then goes on with the group number and the count of open groups that the last
  reading left.  A failed reading leaves the groups open that were open around the failure.
-/

set_option autoImplicit false

namespace BacktrackRegex

/-- How deep groups may nest. -/
def maxNesting : Nat := 256

/-- Everything from the cursor to the end of the pattern as one regex, inside `openGroups` groups
that are taken to be open. -/
def readPattern (openGroups : Nat) (c : Cursor) : Reading Regex :=
  match readAlternation (0 < openGroups) (readAtom (maxNesting - openGroups)) c with
  | .error f => .error f
  | .ok (r, c') => if c'.rest.isEmpty then .ok (r, c') else .error (.unsupported c'.pos c')

/-- The cursor at the start of a pattern. -/
def Cursor.start (pattern : List Char) : Cursor := ⟨pattern, 0, 1⟩

/-- A failure as a compile error of the pattern. -/
def Failure.toCompileError (pattern : String) (f : Failure) : CompileError :=
  { cause := f.cause, pattern, position := f.position }

/-- A pattern as a regex; capturing groups are numbered from one in the order of their opening
parentheses. -/
def parse (pattern : String) : Except CompileError Regex :=
  match readPattern 0 (.start pattern.toList) with
  | .error f => .error (f.toCompileError pattern)
  | .ok (r, _) => .ok r

/-! ## A parser that keeps its place -/

/-- A pattern with the place where reading goes on. -/
structure Parser where
  pattern : String
  /-- Byte offset of what is read next. -/
  pos : Nat := 0
  /-- Number of the next capturing group. -/
  nextId : Nat := 1
  /-- Groups that count as opened and not yet closed. -/
  openGroups : Nat := 0
  deriving DecidableEq, Repr

namespace Parser

/-- The parser moved to byte offset `pos`. -/
def seek (p : Parser) (pos : Nat) : Parser := { p with pos }

/-- The cursor at the parser's place, if that is a character boundary. -/
def cursor? (p : Parser) : Option Cursor :=
  (dropBytes? p.pattern.toList p.pos).map fun rest => ⟨rest, p.pos, p.nextId⟩

/-- Reads from the parser's place to the end of the pattern, and gives the parser as the reading
leaves it.  A reading that succeeds has closed every group that it opened, so the count of open
groups is then the one it began with. -/
def parse (p : Parser) : Except Fault (Except CompileError Regex × Parser) :=
  match p.cursor? with
  | none => .error (.offBoundary p.pos)
  | some c =>
    match readPattern p.openGroups c with
    | .error f =>
      .ok (.error (f.toCompileError p.pattern),
        { p with
          pos := f.stop.pos
          nextId := f.stop.nextId
          openGroups := p.openGroups + f.openGroups })
    | .ok (r, c') => .ok (.ok r, { p with pos := c'.pos, nextId := c'.nextId })

end Parser

end BacktrackRegex
