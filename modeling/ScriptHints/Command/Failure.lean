/-!
# Failures

A failure names the area and the operation that failed, perhaps what the operation was
applied to, and the cause.
-/

namespace ScriptHints
namespace Command

inductive Area where
  | registry | cli
deriving DecidableEq, Repr

def Area.name : Area → String
  | .registry => "registry"
  | .cli => "cli"

structure Failure where
  area : Area
  operation : String
  target : Option String
  cause : String
deriving DecidableEq, Repr

/-- A text for single quotes; other characters stay as they are. -/
def escapeSingleQuotes (text : String) : String :=
  String.ofList (text.toList.flatMap fun c => if c = '\'' then ['\\', c] else [c])

def Failure.message (f : Failure) : String :=
  let target :=
    match f.target with
    | some target => s!"('{escapeSingleQuotes target}')"
    | none => ""
  s!"{f.area.name}.{f.operation}{target} failed: {f.cause}"

end Command
end ScriptHints
