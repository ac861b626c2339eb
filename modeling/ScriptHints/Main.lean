import ScriptHints.Command.Run

/-!
# The program

Reads the files that a command line names and, where it is wanted, the standard input,
runs the command line and writes out the report.
-/

namespace ScriptHints
namespace Command

/-- The files that an invocation reads, and whether it reads the standard input. -/
def needs (i : Invocation) : List String × Bool :=
  match i.task with
  | .normalize _ | .infer _ => (i.types.toList, false)
  | .signature file _ _ | .tokens file | .tree file _ =>
      (i.types.toList ++ file.toList, file.isNone)

def reasonOf (e : IO.Error) : String :=
  match e with
  | .noFileOrDirectory _ _ _ => "No such file or directory (os error 2)"
  | e => toString e

def readBytes (path : String) : IO (Except String (List UInt8)) := do
  try
    let bytes ← IO.FS.readBinFile path
    return .ok bytes.toList
  catch e =>
    return .error (reasonOf e)

def surroundingsOf (arguments : List String) : IO Surroundings := do
  let (paths, wantsInput) :=
    match requestOf arguments with
    | some (.invoke i) => needs i
    | _ => ([], false)
  let files ← paths.mapM fun path => do
    return (path, ← readBytes path)
  let input ← if wantsInput then ( ← IO.getStdin).readBinToEnd else pure ByteArray.empty
  return {
    readFile := fun path => (files.lookup path).getD (.error "not read")
    input := input.toList }

end Command
end ScriptHints

open ScriptHints.Command

def main (arguments : List String) : IO UInt32 := do
  let report := run (← surroundingsOf arguments) arguments
  ( ← IO.getStdout).putStr report.output
  ( ← IO.getStderr).putStr report.errors
  return report.exit.toUInt32
