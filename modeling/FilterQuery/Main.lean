import FilterQuery.CommandLine

/-!
Reads the files that the arguments name, runs the program and writes what it leaves behind.
-/

set_option autoImplicit false

namespace FilterQuery

def readText (path : Text) : IO (Option Text) := do
  try
    return Text.ofUtf8 (← IO.FS.readBinFile (String.ofList path))
  catch _ => return none

end FilterQuery

open FilterQuery in
def main (arguments : List String) : IO UInt32 := do
  let arguments := arguments.map String.toList
  let files ← (CommandLine.paths arguments).mapM fun path => return (path, ← readText path)
  let outcome := CommandLine.run arguments fun path => (files.lookup path).join
  IO.print (String.ofList outcome.output)
  match outcome.error with
  | some message => IO.eprintln ("Error: " ++ String.ofList message)
  | none =>
      if outcome.exitCode ≠ 0 then
        IO.eprintln ("error: these arguments are not accepted\n" ++
          String.ofList CommandLine.usage)
  return outcome.exitCode.toUInt32
