import ScriptHints.Json.Printer
import ScriptHints.Token.Basic
import ScriptHints.Syntax.Walk

/-!
# Listings of tokens and trees

Both are listed either as lines for a reader or in JSON. A tree is listed from its root
downwards, every node before its children, and the lines show the depth by indentation.
-/

namespace ScriptHints
namespace Command

open Json Syntax Token

/-!
## Tokens
-/

/-- A text filled up with blanks in front of it. -/
def padLeft (width : Nat) (text : String) : String :=
  String.ofList (List.replicate (width - text.length) ' ') ++ text

/-- A text filled up with blanks behind it. -/
def padRight (width : Nat) (text : String) : String :=
  text ++ String.ofList (List.replicate (width - text.length) ' ')

def tokenLine (t : Token) : String :=
  let line := padLeft 4 (toString t.place.line)
  let column := padRight 4 (toString t.place.column)
  s!"{line}:{column} {t.kind.shown} {Text.shown t.lexeme}"

def tokenLines (s : TokenStream) : List String :=
  s.toList.map tokenLine

def tokenValue (t : Token) : Value :=
  .object
    [ ("kind", .string t.kind.shown),
      ("lexeme", .string t.lexeme),
      ("line", .number t.place.line),
      ("column", .number t.place.column) ]

/-- The tokens without the end of the text. -/
def tokensValue (s : TokenStream) : Value :=
  .array (s.body.toList.map tokenValue)

/-!
## Trees
-/

def nodeLine (depth : Nat) (e : Entry) : String :=
  let indent := String.ofList (List.replicate (2 * depth) ' ')
  let name := (e.node.identifierName?.map fun name => s!" '{name}'").getD ""
  let s := e.span
  s!"{indent}{e.node.category}{name} [{s.line}:{s.column}-{s.endLine}:{s.endColumn}]"

/-- The lines of a node at a depth and of all nodes below it. -/
def outlineWithin (t : SyntaxTree) : Nat → Nat → NodeId → Except TreeFault (List String)
  | 0, _, _ => .error .endless
  | b + 1, depth, id => do
      let entry ← t.entry id
      let below ← entry.node.children.mapM (outlineWithin t b (depth + 1))
      return nodeLine depth entry :: below.flatten

def outline (t : SyntaxTree) (id : NodeId) : Except TreeFault (List String) :=
  outlineWithin t t.budget 0 id

def nodeValue (t : SyntaxTree) (id : NodeId) : Except TreeFault Value := do
  let e ← t.entry id
  let s := e.span
  return .object
    [ ("id", .number id.index),
      ("kind", .string e.node.category),
      ("parent", (e.parent.map fun parent => .number parent.index).getD .null),
      ("span", .array [.number s.line, .number s.column, .number s.endLine, .number s.endColumn]),
      ("name", .ofOption e.node.identifierName?) ]

def nodesValue (t : SyntaxTree) (id : NodeId) : Except TreeFault Value := do
  return .array (← (← t.descendants id).mapM (nodeValue t))

end Command
end ScriptHints
