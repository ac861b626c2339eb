import ScriptHints.Command.Arguments

/-!
# Invocations

What a command line asks for: a task, with declarations of types to load before it, if
any, and with results in JSON, if wanted. These two may be asked for before the name of
the task and behind it; a file of declarations that is named behind it counts.
-/

namespace ScriptHints
namespace Command

inductive Task where
  | normalize (text : String)
  | infer (text : String)
  | signature (file : Option String) (line column : Nat)
  | tokens (file : Option String)
  | tree (file : Option String) (recover : Bool)
deriving DecidableEq, Repr

structure Invocation where
  types : Option String
  json : Bool
  task : Task
deriving DecidableEq, Repr

inductive Request where
  | version
  | invoke (invocation : Invocation)
deriving DecidableEq, Repr

/-!
## Vocabularies
-/

def everywhere : Vocabulary :=
  { flags := ["json", "verbose"], options := ["types"], letters := [('v', "verbose")] }

/-- Before the name of the task. -/
def beforeTask : Vocabulary :=
  { everywhere with
    flags := "version" :: everywhere.flags
    letters := ('V', "version") :: everywhere.letters }

def vocabularyOf (task : String) : Vocabulary :=
  match task with
  | "signature" => { everywhere with options := ["line", "column"] ++ everywhere.options }
  | "tree" => { everywhere with flags := "recover" :: everywhere.flags }
  | _ => everywhere

/-!
## Tasks
-/

/-- The only positional argument. -/
def onlyText (g : Given) : Option String :=
  match g.positionals with
  | [text] => some text
  | _ => none

/-- The name of a file, or nothing for the standard input. -/
def onlyFile (g : Given) : Option (Option String) :=
  match g.positionals with
  | [] => some none
  | [file] => if file.isEmpty then none else some (some file)
  | _ => none

def taskOf (name : String) (g : Given) : Option Task :=
  match name with
  | "normalize" => (onlyText g).map .normalize
  | "infer" => (onlyText g).map .infer
  | "signature" => do
      let file ← onlyFile g
      let line ← (g.value? "line").bind readWord64?
      let column ← (g.value? "column").bind readWord64?
      return .signature file line column
  | "tokens" => (onlyFile g).map .tokens
  | "tree" => (onlyFile g).map fun file => .tree file (g.has "recover")
  | _ => none

/-- The invocation of a task, with what stands before its name and behind it. -/
def invocationOf (before : Given) (name : String) (rest : List String) : Option Invocation := do
  let behind ← Given.ofArguments ((vocabularyOf name).read rest)
  let task ← taskOf name behind
  return {
    types := (behind.value? "types").or (before.value? "types")
    json := behind.has "json" || before.has "json"
    task := task }

/-!
## Command lines

Arguments before the name of the task are taken one by one, letters behind a dash as well,
and the version is answered as soon as it is asked for, whatever comes behind.
-/

/-- Adds arguments until the version is asked for. -/
def addUntilVersion (g : Given) : List Argument → Option (Given × Bool)
  | [] => some (g, false)
  | a :: arguments =>
      if a = .flag "version" then some (g, true)
      else (g.add a).bind fun g => addUntilVersion g arguments

def requestFrom (g : Given) : List String → Option Request
  | [] => none
  | argument :: rest =>
      if argument = "--" then none
      else if isDashed argument then
        let (found, used) := beforeTask.readDashed argument rest.head?
        match addUntilVersion g found, used, rest with
        | none, _, _ => none
        | some (_, true), _, _ => some .version
        | some (g, false), true, _ :: rest => requestFrom g rest
        | some (g, false), _, rest => requestFrom g rest
      else (invocationOf g argument rest).map .invoke

/-- What a command line asks for, or nothing if it is not understood. -/
def requestOf (arguments : List String) : Option Request :=
  requestFrom Given.nothing arguments

end Command
end ScriptHints
