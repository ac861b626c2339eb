import ScriptHints.Text.Quoted

/-!
# Printing JSON

Values that a program hands out, printed for readers: each element and each member stands
on a line of its own, two blanks further in for each level, and the members of an object
come in the order of their keys.
-/

namespace ScriptHints
namespace Json

inductive Value where
  | null
  | bool (b : Bool)
  | number (n : Nat)
  | string (text : String)
  | array (elements : List Value)
  | object (members : List (String × Value))
deriving Repr

namespace Value

def ofOption (text : Option String) : Value :=
  (text.map string).getD null

end Value

/-- What stands for a character in a string. -/
def escapeChar (c : Char) : List Char :=
  match c with
  | '"' => ['\\', '"']
  | '\\' => ['\\', '\\']
  | '\x08' => ['\\', 'b']
  | '\x0c' => ['\\', 'f']
  | '\n' => ['\\', 'n']
  | '\r' => ['\\', 'r']
  | '\t' => ['\\', 't']
  | _ =>
      if c < ' ' then
        let digits := Text.hexadecimal c.toNat
        ['\\', 'u'] ++ List.replicate (4 - digits.length) '0' ++ digits
      else [c]

def quoted (text : String) : String :=
  String.ofList ('"' :: text.toList.flatMap escapeChar ++ ['"'])

def newLine (level : Nat) : String :=
  String.ofList ('\n' :: List.replicate (2 * level) ' ')

/-- Items between brackets, on lines of their own if there are any. -/
def bracketed (level : Nat) (before behind : String) (items : List String) : String :=
  match items with
  | [] => before ++ behind
  | _ =>
      before ++ newLine (level + 1) ++ ("," ++ newLine (level + 1)).intercalate items ++
        newLine level ++ behind

/-- Members in the order of their keys. -/
def sortMembers (members : List (String × String)) : List (String × String) :=
  members.mergeSort fun a b => decide (a.1 ≤ b.1)

mutual

/-- A value that stands at a level. -/
def pretty (level : Nat) : Value → String
  | .null => "null"
  | .bool b => if b then "true" else "false"
  | .number n => toString n
  | .string text => quoted text
  | .array elements => bracketed level "[" "]" (prettyElements (level + 1) elements)
  | .object members =>
      let printed := sortMembers (prettyMembers (level + 1) members)
      bracketed level "\x7b" "\x7d" (printed.map fun (key, value) => quoted key ++ ": " ++ value)

def prettyElements (level : Nat) : List Value → List String
  | [] => []
  | v :: elements => pretty level v :: prettyElements level elements

def prettyMembers (level : Nat) : List (String × Value) → List (String × String)
  | [] => []
  | (key, v) :: members => (key, pretty level v) :: prettyMembers level members

end

/-- A value printed on its own. -/
def Value.text (v : Value) : String :=
  pretty 0 v

end Json
end ScriptHints
