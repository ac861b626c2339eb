import ScriptHints.Text.Blank

/-!
# Type declarations

A type has a name, and perhaps a qualified name, a summary and a supertype. Seven types
are canonical: they are the types of literals and of operators, and a hint can name them
without looking at a declaration.
-/

namespace ScriptHints
namespace TypeInfo

inductive CanonicalType where
  | number | string | boolean | object | array | error
  /-- The type of an expression cannot be told. -/
  | any
deriving DecidableEq, Repr

namespace CanonicalType

def name : CanonicalType → String
  | .number => "Number"
  | .string => "String"
  | .boolean => "Boolean"
  | .object => "Object"
  | .array => "Array"
  | .error => "Error"
  | .any => "Any"

def all : List CanonicalType :=
  [.number, .string, .boolean, .object, .array, .error, .any]

def ofName? (name : String) : Option CanonicalType :=
  all.find? fun type => type.name = name

theorem ofName?_name (type : CanonicalType) : ofName? type.name = some type := by
  cases type <;> decide

end CanonicalType

structure TypeDeclaration where
  name : String
  qualifiedName : Option String
  summary : Option String
  supertype : Option String
deriving DecidableEq, Repr

namespace TypeDeclaration

def ofName (name : String) : TypeDeclaration :=
  { name := name, qualifiedName := none, summary := none, supertype := none }

/-- Nothing but white space in the name. -/
def isNameless (d : TypeDeclaration) : Bool :=
  Text.isBlankText d.name

end TypeDeclaration
end TypeInfo
end ScriptHints
