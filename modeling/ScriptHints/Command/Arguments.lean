/-!
# Command-line arguments

An argument with a dash in front is a flag or an option; the value of an option stands
behind an equals sign or is the next argument, which then has no dash in front. All other
arguments are positional, and so is everything behind a double dash. A single dash is a
positional argument, too. Apart from the mark for verbosity, flags and options are given
at most once.
-/

namespace ScriptHints
namespace Command

inductive Argument where
  | flag (name : String)
  | option (name value : String)
  | positional (text : String)
  /-- An argument, or a letter behind a dash, that is not understood. -/
  | unknown
deriving DecidableEq, Repr

/-- The names that are known where the arguments stand. -/
structure Vocabulary where
  flags : List String
  options : List String
  /-- Letters for flags, to be put together behind one dash. -/
  letters : List (Char × String)

def isDashed (argument : String) : Bool :=
  argument.toList.head? = some '-' && argument != "-"

/-!
## Single arguments
-/

/-- An option with its value; no option takes an empty one. -/
def optionWith (name value : String) : Argument :=
  if value.isEmpty then .unknown else .option name value

def Vocabulary.readLetter (v : Vocabulary) (c : Char) : Argument :=
  match v.letters.lookup c with
  | none => .unknown
  | some name => .flag name

/-- A name behind two dashes, perhaps with a value; tells also whether the argument that
comes next was used as the value. -/
def Vocabulary.readName (v : Vocabulary) (text : List Char) (next : Option String) :
    Argument × Bool :=
  let name := String.ofList (text.takeWhile (· ≠ '='))
  match text.dropWhile (· ≠ '=') with
  | _ :: value =>
      if v.options.contains name then (optionWith name (String.ofList value), false)
      else (.unknown, false)
  | [] =>
      if v.flags.contains name then (.flag name, false)
      else if v.options.contains name then
        match next with
        | some value =>
            if isDashed value then (.unknown, false) else (optionWith name value, true)
        | none => (.unknown, false)
      else (.unknown, false)

/-- What a dashed argument means: a name behind two dashes, or any number of letters
behind one. -/
def Vocabulary.readDashed (v : Vocabulary) (argument : String) (next : Option String) :
    List Argument × Bool :=
  match argument.toList with
  | '-' :: '-' :: text =>
      let (found, used) := v.readName text next
      ([found], used)
  | letters => (letters.tail.map v.readLetter, false)

/-!
## All arguments
-/

def Vocabulary.read (v : Vocabulary) : List String → List Argument
  | [] => []
  | argument :: rest =>
      if argument = "--" then rest.map .positional
      else if isDashed argument then
        let (found, used) := v.readDashed argument rest.head?
        match used, rest with
        | true, _ :: rest => found ++ v.read rest
        | _, rest => found ++ v.read rest
      else .positional argument :: v.read rest

/-- What the arguments of one level give. -/
structure Given where
  flags : List String
  options : List (String × String)
  positionals : List String
deriving DecidableEq, Repr

namespace Given

def nothing : Given :=
  ⟨[], [], []⟩

def repeatable : List String :=
  ["verbose"]

def add (g : Given) : Argument → Option Given
  | .flag name =>
      if g.flags.contains name && !repeatable.contains name then none
      else some { g with flags := name :: g.flags }
  | .option name value =>
      if (g.options.lookup name).isSome then none
      else some { g with options := (name, value) :: g.options }
  | .positional text => some { g with positionals := g.positionals ++ [text] }
  | .unknown => none

/-- What the arguments give, unless one is not understood or wrongly repeated. -/
def ofArguments (arguments : List Argument) : Option Given :=
  arguments.foldlM add nothing

def has (g : Given) (flag : String) : Bool :=
  g.flags.contains flag

def value? (g : Given) (option : String) : Option String :=
  g.options.lookup option

end Given

/-- A natural number of at most 64 bits, perhaps with a plus sign. -/
def readWord64? (text : String) : Option Nat :=
  let digits :=
    match text.toList with
    | '+' :: digits => digits
    | digits => digits
  if digits.isEmpty || !digits.all Char.isDigit then none
  else
    let n := digits.foldl (fun n c => 10 * n + (c.toNat - '0'.toNat)) 0
    if n < Nat.pow 2 64 then some n else none

end Command
end ScriptHints
