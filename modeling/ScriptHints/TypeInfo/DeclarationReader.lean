import ScriptHints.Json.Skip
import ScriptHints.TypeInfo.Declaration

/-!
# Declarations in JSON

A list of declarations is an array. A declaration is an object with a name and up to three
more members that it knows, each at most once; other members are passed over. It may also
be an array of the same four texts in a fixed order, of which the last three may be
missing. A member that is `null` counts as missing, except for the name.
-/

namespace ScriptHints
namespace TypeInfo

open Json Number

/-!
## Texts
-/

/-- A value that stands where another shape is wanted: a scalar is read before it is refused. -/
def refuse : JsonReader α := do
  let c ← peek
  if c = '[' || c = '{' then
    throw .wrongShape
  else if c = '"' then
    drop
    let _ ← stringTail
    throw .wrongShape
  else if c = '-' || c.isDigit then
    if c = '-' then
      drop
    number
    throw .wrongShape
  else
    skipScalar c
    throw .wrongShape

def readText : JsonReader String := do
  if (← peek) = '"' then
    drop
    stringTail
  else
    refuse

def readOptionalText : JsonReader (Option String) := do
  if (← peek) = 'n' then
    skipScalar 'n'
    return none
  else
    return some (← readText)

/-!
## Declarations as arrays
-/

/-- The next text of a declaration, unless the array ends before it. -/
def nextText : JsonReader (Option String) := do
  if (← peek) = ']' then
    return none
  else
    require ','
    readOptionalText

def readPositional : JsonReader TypeDeclaration := do
  if (← peek) = ']' then
    throw .wrongShape
  else
    let name ← readText
    let qualifiedName ← nextText
    let summary ← nextText
    let supertype ← nextText
    require ']'
    return { name, qualifiedName, summary, supertype }

/-!
## Declarations as objects
-/

/-- The members that have been read. -/
structure Members where
  name : Option String
  qualifiedName : Option (Option String)
  summary : Option (Option String)
  supertype : Option (Option String)

def Members.empty : Members :=
  ⟨none, none, none, none⟩

def Members.declaration (m : Members) : JsonReader TypeDeclaration :=
  match m.name with
  | none => throw .wrongShape
  | some name =>
      return {
        name := name
        qualifiedName := m.qualifiedName.join
        summary := m.summary.join
        supertype := m.supertype.join }

/-- The value of a member that is not there yet. -/
def readOnce (present : Bool) (read : JsonReader α) : JsonReader α := do
  if present then
    throw .wrongShape
  else
    require ':'
    read

def readMember (key : String) (m : Members) : JsonReader Members := do
  match key with
  | "name" => return { m with name := some (← readOnce m.name.isSome readText) }
  | "qualified_name" =>
      let text ← readOnce m.qualifiedName.isSome readOptionalText
      return { m with qualifiedName := some text }
  | "summary" =>
      let text ← readOnce m.summary.isSome readOptionalText
      return { m with summary := some text }
  | "supertype" =>
      let text ← readOnce m.supertype.isSome readOptionalText
      return { m with supertype := some text }
  | _ =>
      require ':'
      skipValue
      return m

def readMembers : Nat → Bool → Members → JsonReader TypeDeclaration
  | 0, _, _ => throw .malformed
  | bytes + 1, first, m => do
      if (← peek) = '}' then
        drop
        m.declaration
      else
        unless first do
          require ','
        require '"'
        let key ← stringTail
        readMembers bytes false (← readMember key m)

/-!
## Lists of declarations
-/

def readDeclaration : JsonReader TypeDeclaration := do
  let c ← peek
  if c = '[' then
    drop
    readPositional
  else if c = '{' then
    drop
    readMembers ((← get).length + 1) true Members.empty
  else
    refuse

def readDeclarations : Nat → Bool → JsonReader (List TypeDeclaration)
  | 0, _ => throw .malformed
  | bytes + 1, first => do
      if (← peek) = ']' then
        drop
        return []
      else
        unless first do
          require ','
        let d ← readDeclaration
        return d :: (← readDeclarations bytes false)

/-- A whole text that holds one array of declarations. -/
def readDocument : JsonReader (List TypeDeclaration) := do
  if (← peek) = '[' then
    drop
    let ds ← readDeclarations ((← get).length + 1) true
    atEnd
    return ds
  else
    refuse

def declarationsOf (bytes : List UInt8) : Except JsonFault (List TypeDeclaration) :=
  (readDocument.run bytes).map Prod.fst

end TypeInfo
end ScriptHints
