import ScriptHints.Command.Excerpt
import ScriptHints.Command.Failure
import ScriptHints.Command.Invocation
import ScriptHints.Command.Listing
import ScriptHints.Inference.EnteredText
import ScriptHints.Inference.Signature

/-!
# Running an invocation

A run is a function of what its surroundings hold: the bytes of files and of the standard
input. It reports an exit code and what is written to both outputs. A run that fails writes
nothing but the message of its failure.
-/

namespace ScriptHints
namespace Command

open Grammar Inference Json Syntax Token TypeInfo

structure Surroundings where
  /-- The bytes of a file, or why it cannot be read. -/
  readFile : String → Except String (List UInt8)
  input : List UInt8

structure Report where
  exit : Nat
  output : String
  errors : String
deriving DecidableEq, Repr

/-- What a run has written to its outputs if it succeeds, and else why it fails. -/
structure Written where
  output : String
  errors : String

def Written.line (text : String) : Written :=
  { output := text ++ "\n", errors := "" }

def lines (texts : List String) : String :=
  String.join (texts.map (· ++ "\n"))

def Value.written (v : Value) : Written :=
  Written.line v.text

/-!
## Sources
-/

structure Source where
  path : String
  text : String

def notUtf8 : String :=
  "stream did not contain valid UTF-8"

def decode (bytes : List UInt8) : Except String String :=
  match String.fromUTF8? ⟨bytes.toArray⟩ with
  | some text => .ok text
  | none => .error notUtf8

/-- The text of a file, or of the standard input. -/
def readSource (around : Surroundings) (file : Option String) : Except String Source :=
  match file with
  | some path =>
      match (around.readFile path).bind decode with
      | .ok text => .ok { path := path, text := text }
      | .error cause =>
          .error (Failure.message
            { area := .cli, operation := "read", target := some path, cause := cause })
  | none =>
      match decode around.input with
      | .ok text => .ok { path := "<stdin>", text := text }
      | .error cause =>
          .error (Failure.message
            { area := .cli, operation := "stdin", target := none, cause := cause })

def loadTypes (around : Surroundings) (path : String) : Except RegistryError Registry :=
  (Registry.standard.load path (around.readFile path)).map Prod.fst

/-- The standard types and those of a file. -/
def registryOf (around : Surroundings) (types : Option String) : Except String Registry :=
  match types with
  | none => .ok Registry.standard
  | some path =>
      (loadTypes around path).mapError fun e =>
        Failure.message
          { area := .registry, operation := "load", target := some path, cause := e.message }

/-!
## Tasks
-/

/-- A fault of a walk, which no tree that was parsed has. -/
def faultless (walk : Except TreeFault α) : Except String α :=
  walk.mapError fun _ => "broken syntax tree"

def runNormalize (json : Bool) (text : String) : Except String Written := do
  let expression ← faultless (enteredExpression text)
  if json then
    return Value.written (.object [("text", .string text), ("expression", .string expression)])
  else
    return Written.line expression

def runInfer (json : Bool) (registry : Registry) (text : String) : Except String Written := do
  let found ← faultless (enteredType (Setting.ofRegistry registry) text)
  if json then
    let expression ← faultless (enteredExpression text)
    return Value.written (.object
      [ ("text", .string text),
        ("expression", .string expression),
        ("type", .ofOption (found.map (·.name))),
        ("summary", .ofOption (found.bind (·.summary))) ])
  else
    return Written.line ((found.map (·.name)).getD "(none)")

def runSignature (json : Bool) (source : Source) (line column : Nat) : Except String Written := do
  let (tree, _) ← (parseScript source.text Options.lenient).mapError ParseError.message
  match ← faultless (tree.nodeAt line column) with
  | none => throw s!"no syntax node at line {line}, column {column}"
  | some id =>
      match ← faultless (enclosingSignature tree id) with
      | none => throw s!"no enclosing call at line {line}, column {column}"
      | some key =>
          if json then
            return Value.written (.object
              [("line", .number line), ("column", .number column), ("signature", .string key)])
          else
            return Written.line key

def runTokens (json : Bool) (source : Source) : Except String Written := do
  let stream ← (tokensOf source.text).mapError LexicalError.message
  if json then
    return Value.written (tokensValue stream)
  else
    return { output := lines (tokenLines stream), errors := "" }

def runTree (json recover : Bool) (source : Source) : Except String Written := do
  let options := { recover := recover, report := true }
  let (tree, diagnostics) ← (parseScript source.text options).mapError ParseError.message
  let sourceLines := linesOf source.text
  let errors := lines (diagnostics.toList.flatMap (diagnosticLines source.path sourceLines))
  match tree.root with
  | none => return { output := "", errors := errors }
  | some root =>
      if json then
        let nodes ← faultless (nodesValue tree root)
        return { Value.written nodes with errors := errors }
      else
        let nodes ← faultless (outline tree root)
        return { output := lines nodes, errors := errors }

/-!
## Runs
-/

def perform (around : Surroundings) (i : Invocation) : Except String Written := do
  let registry ← registryOf around i.types
  match i.task with
  | .normalize text => runNormalize i.json text
  | .infer text => runInfer i.json registry text
  | .signature file line column => runSignature i.json (← readSource around file) line column
  | .tokens file => runTokens i.json (← readSource around file)
  | .tree file recover => runTree i.json recover (← readSource around file)

def versionText : String :=
  "ecma 0.1.0"

/-- The report of a run; a command line that is not understood has exit code two. -/
def run (around : Surroundings) (arguments : List String) : Report :=
  match requestOf arguments with
  | none => { exit := 2, output := "", errors := "" }
  | some .version => { exit := 0, output := versionText ++ "\n", errors := "" }
  | some (.invoke i) =>
      match perform around i with
      | .ok written => { exit := 0, output := written.output, errors := written.errors }
      | .error message => { exit := 1, output := "", errors := s!"Error: {message}\n" }

end Command
end ScriptHints
