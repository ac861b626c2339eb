import Std.Data.TreeMap
import ScriptHints.TypeInfo.DeclarationReader

/-!
# The registry of types

A registry holds at most one declaration for each name: the last one that was registered.
A list of declarations is registered as a whole or, if one of them has no name, not at
all. Names are listed in the order of their code points, which is also the order of their
bytes in UTF-8.
-/

namespace ScriptHints
namespace TypeInfo

open Json

inductive RegistryError where
  | emptyName
  | invalid (fault : JsonFault)
  /-- The file cannot be read, for a reason that the system gives. -/
  | unreadable (path reason : String)
deriving DecidableEq, Repr

def RegistryError.message : RegistryError → String
  | .emptyName => "type declaration has an empty name"
  | .invalid .endOfText => "invalid type declaration JSON: the text ends too early"
  | .invalid .malformed => "invalid type declaration JSON: the text is malformed"
  | .invalid .wrongShape => "invalid type declaration JSON: the data has the wrong shape"
  | .unreadable path reason => s!"failed to read type declarations from {path}: {reason}"

structure Registry where
  declarations : Std.TreeMap String TypeDeclaration

namespace Registry

def empty : Registry :=
  ⟨∅⟩

/-!
## Look-up
-/

def lookup (r : Registry) (name : String) : Option TypeDeclaration :=
  r.declarations[name]?

def lookupCanonical (r : Registry) (type : CanonicalType) : Option TypeDeclaration :=
  r.lookup type.name

def contains (r : Registry) (name : String) : Bool :=
  r.declarations.contains name

def size (r : Registry) : Nat :=
  r.declarations.size

/-- The registered names in order. -/
def names (r : Registry) : List String :=
  r.declarations.keys

def insert (r : Registry) (d : TypeDeclaration) : Registry :=
  ⟨r.declarations.insert d.name d⟩

theorem lookup_empty (name : String) : empty.lookup name = none := by
  simp [empty, lookup]

theorem lookup_insert (r : Registry) (d : TypeDeclaration) (name : String) :
    (r.insert d).lookup name = if d.name = name then some d else r.lookup name := by
  simp [insert, lookup, Std.TreeMap.getElem?_insert]

theorem contains_eq_isSome_lookup (r : Registry) (name : String) :
    r.contains name = (r.lookup name).isSome := by
  simp [contains, lookup]

theorem mem_names_iff (r : Registry) (name : String) :
    name ∈ r.names ↔ r.contains name = true := by
  simp [names, contains, Std.TreeMap.mem_keys]

/-!
## Built-in types
-/

def builtins : List TypeDeclaration :=
  [ ("Object", "Root of the prototype chain.", none),
    ("Number", "Double-precision numeric value.", some "Object"),
    ("String", "Immutable sequence of UTF-16 code units.", some "Object"),
    ("Boolean", "The values true and false.", some "Object"),
    ("Array", "Ordered list indexed by integers.", some "Object"),
    ("Error", "Base type of thrown runtime errors.", some "Object"),
    ("Any", "Value whose type cannot be determined statically.", none),
    ("Function", "Callable object.", some "Object"),
    ("Date", "Point in time.", some "Object"),
    ("RegExp", "Regular expression.", some "Object"),
    ("Math", "Mathematical constants and functions.", some "Object"),
    ("EvalError", "Raised for misuse of the global eval function.", some "Error"),
    ("RangeError", "Numeric value outside its allowed range.", some "Error"),
    ("ReferenceError", "Reference to an undeclared variable.", some "Error"),
    ("SyntaxError", "Source text that failed to parse.", some "Error"),
    ("TypeError", "Value of an unexpected type.", some "Error"),
    ("URIError", "Malformed URI passed to a global URI function.", some "Error") ].map
  fun (name, summary, supertype) =>
    { name := name, qualifiedName := none, summary := some summary, supertype := supertype }

/-- The canonical types and the constructors that every script has. -/
def standard : Registry :=
  builtins.foldl insert empty

end Registry

/-!
## Updates
-/

/-- A change of a registry in place: an update that fails leaves a registry behind too. -/
abbrev Update :=
  EStateM RegistryError Registry

namespace Update

def insert (d : TypeDeclaration) : Update Unit :=
  modify fun r => r.insert d

def register (d : TypeDeclaration) : Update Unit :=
  if d.isNameless then throw .emptyName else insert d

def insertAll : List TypeDeclaration → Update Unit
  | [] => pure ()
  | d :: ds => do insert d; insertAll ds

/-- Registers the declarations that an input holds and tells how many there are. -/
def extend (read : α → Except JsonFault (List TypeDeclaration)) (input : α) : Update Nat :=
  match read input with
  | .error fault => throw (.invalid fault)
  | .ok ds =>
      if ds.any (·.isNameless) then throw .emptyName
      else do insertAll ds; return ds.length

/-- Registers the declarations of a file, if it can be opened. -/
def load (read : α → Except JsonFault (List TypeDeclaration)) (path : String)
    (opened : Except String α) : Update Nat :=
  match opened with
  | .error reason => throw (.unreadable path reason)
  | .ok input => extend read input

/-- The registry that an update leaves. -/
def left (u : Update α) (r : Registry) : Registry :=
  match u.run r with
  | .ok _ r => r
  | .error _ r => r

/-- The registry that an update leaves if it succeeds, and what it gives. -/
def result (u : Update α) (r : Registry) : Except RegistryError (Registry × α) :=
  match u.run r with
  | .ok a r => .ok (r, a)
  | .error e _ => .error e

end Update

namespace Registry

def register (r : Registry) (d : TypeDeclaration) : Except RegistryError Registry :=
  ((Update.register d).result r).map Prod.fst

/-- Registers the declarations of a text and tells how many it holds. -/
def registerJson (r : Registry) (bytes : List UInt8) : Except RegistryError (Registry × Nat) :=
  (Update.extend declarationsOf bytes).result r

/-- Registers the declarations of a file, given its bytes or why it cannot be opened. -/
def load (r : Registry) (path : String) (opened : Except String (List UInt8)) :
    Except RegistryError (Registry × Nat) :=
  (Update.load declarationsOf path opened).result r

end Registry
end TypeInfo
end ScriptHints
