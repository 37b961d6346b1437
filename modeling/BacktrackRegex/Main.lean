import BacktrackRegex.CommandLine.Response

/-!
# The command line program

`-E PATTERN [--steps LIMIT]` matches the pattern against the first line of standard input.
-/

set_option autoImplicit false

namespace BacktrackRegex

/-- Standard input up to the end of its first line. -/
partial def readFirstLine (stream : IO.FS.Stream) (done : List UInt8) : IO (List UInt8) := do
  let chunk := (← stream.read 4096).toList
  if chunk.isEmpty || chunk.contains newline then return done ++ chunk
  else readFirstLine stream (done ++ chunk)

/-- Writes a response and gives its exit code. -/
def Response.emit (r : Response) : IO UInt32 := do
  (← IO.getStdout).putStr r.stdout
  (← IO.getStderr).putStr r.stderr
  return r.exitCode

end BacktrackRegex

open BacktrackRegex in
/-- The entry point. -/
def main (arguments : List String) : IO UInt32 := do
  match prepare arguments with
  | .error r => r.response.emit
  | .ok m =>
    match respond m (← readFirstLine (← IO.getStdin) []) with
    | .ok r => r.emit
    | .error f => throw (IO.userError (f.message?.getD "the engine broke a promise of its own"))
