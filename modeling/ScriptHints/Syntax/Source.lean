import ScriptHints.Text.Quoted
import ScriptHints.Syntax.Walk

/-!
# Printing nodes as source text

A node is printed as a sequence of fragments: lexemes, single blanks and line breaks, and
the text of skipped statements as it is. Operators have a blank on either side, statements
end with a semicolon, and the statements of a block stand on lines of their own, two
blanks further in for each level. Only line breaks know the level, so the same node
printed at another level differs in nothing but the blanks behind its line breaks.
-/

namespace ScriptHints
namespace Syntax

open Text Token

inductive Fragment where
  | lexeme (text : String)
  | blank
  | lineBreak (level : Nat)
  | verbatim (text : String)
deriving DecidableEq, Repr

namespace Fragment

def text : Fragment → String
  | .lexeme text => text
  | .blank => " "
  | .lineBreak level => String.ofList ('\n' :: List.replicate (2 * level) ' ')
  | .verbatim text => text

def textOf (fragments : List Fragment) : String :=
  String.join (fragments.map text)

def mark (p : Punctuator) : Fragment :=
  .lexeme p.text

def word (k : Keyword) : Fragment :=
  .lexeme k.text

/-- Pieces with the same fragments between each two of them. -/
def separated (separator : List Fragment) (pieces : List (List Fragment)) : List Fragment :=
  (pieces.intersperse separator).flatten

/-- Pieces with a comma and a blank between them. -/
def list (pieces : List (List Fragment)) : List Fragment :=
  separated [mark .comma, blank] pieces

def enclosed (before : Punctuator) (inside : List Fragment) (behind : Punctuator) :
    List Fragment :=
  mark before :: inside ++ [mark behind]

def parens (inside : List Fragment) : List Fragment :=
  enclosed .openParen inside .closeParen

/-- A word and a condition in parentheses, with the blank before what follows. -/
def header (k : Keyword) (condition : List Fragment) : List Fragment :=
  [word k, blank] ++ parens condition ++ [blank]

/-- Pieces on lines of their own, each behind a line break. -/
def lines (level : Nat) (pieces : List (List Fragment)) : List Fragment :=
  (pieces.map (lineBreak level :: ·)).flatten

/-- Statements in braces; without statements the braces touch. -/
def braces (level : Nat) (pieces : List (List Fragment)) : List Fragment :=
  match pieces with
  | [] => [mark .openBrace, mark .closeBrace]
  | _ => enclosed .openBrace (lines (level + 1) pieces ++ [lineBreak level]) .closeBrace

/-- A part that may be missing, with a lead that goes with it. -/
def optional (lead : List Fragment) (piece : Option (List Fragment)) : List Fragment :=
  match piece with
  | some piece => lead ++ piece
  | none => []

/-- A word, perhaps with a part behind it, and a semicolon. -/
def wordStatement (k : Keyword) (piece : Option (List Fragment)) : List Fragment :=
  word k :: optional [blank] piece ++ [mark .semicolon]

end Fragment

open Fragment

/-!
## Elements of array literals

A missing element is printed as nothing, and a missing last one needs a comma behind it.
-/

def elementFragments (elements : List (Option (List Fragment))) : List Fragment :=
  let closing :=
    match elements.getLast? with
    | some none => [mark .comma]
    | _ => []
  list (elements.map (·.getD [])) ++ closing

/-!
## Nodes

`print` gives the fragments of a child at a level. The children are printed in the order
of the text, so the first fault found is the first in the text.
-/

/-- The fragments of a node at a level, given those of its parts. -/
def Node.fragments (print : Nat → NodeId → Except TreeFault (List Fragment)) (level : Nat)
    (node : Node) : Except TreeFault (List Fragment) :=
  let part := print level
  let parts := fun (ids : List NodeId) => ids.mapM part
  let optionalPart := fun (id : Option NodeId) => id.mapM part
  match node with
  | .script statements => do
      return separated [lineBreak level] (← parts statements)
  | .identifier name => return [lexeme name]
  | .number _ raw => return [lexeme raw]
  | .string value quote =>
      return [lexeme (String.singleton quote ++ escapeContents quote value ++
        String.singleton quote)]
  | .boolean value => return [lexeme (if value then "true" else "false")]
  | .nullValue => return [word .nullWord]
  | .thisValue => return [word .thisWord]
  | .regExp pattern flags => return [lexeme ("/" ++ pattern ++ "/" ++ flags)]
  | .object properties => do
      return enclosed .openBrace (list (← parts properties)) .closeBrace
  | .property key value => do
      return (← part key) ++ [mark .colon, blank] ++ (← part value)
  | .array elements => do
      let elements ← elements.mapM optionalPart
      return enclosed .openBracket (elementFragments elements) .closeBracket
  | .binary operator left right => do
      return (← part left) ++ [blank, lexeme operator.symbol, blank] ++ (← part right)
  | .assignment operator target value => do
      return (← part target) ++ [blank, lexeme operator.symbol, blank] ++ (← part value)
  | .propertyAccess target name => do
      return (← part target) ++ [mark .dot] ++ (← part name)
  | .elementAccess target element => do
      return (← part target) ++ enclosed .openBracket (← part element) .closeBracket
  | .call target arguments => do
      return (← part target) ++ parens (list (← parts arguments))
  | .construction target arguments => do
      let target ← part target
      let arguments ← arguments.mapM parts
      return [word .newWord, blank] ++ target ++ optional [] (arguments.map (parens ∘ list))
  | .unary operator operand => do
      let gap := if operator.isWord then [blank] else []
      return lexeme operator.symbol :: gap ++ (← part operand)
  | .update operator side operand => do
      let operand ← part operand
      match side with
      | .before => return lexeme operator.symbol :: operand
      | .behind => return operand ++ [lexeme operator.symbol]
  | .conditional test consequent alternative => do
      return (← part test) ++ [blank, mark .question, blank] ++ (← part consequent) ++
        [blank, mark .colon, blank] ++ (← part alternative)
  | .parenthesized expression => do
      return parens (← part expression)
  | .sequence expressions => do
      return list (← parts expressions)
  | .function name params body _ => do
      let name ← optionalPart name
      let params ← parts params
      return word .functionWord :: optional [blank] name ++ parens (list params) ++ [blank] ++
        (← part body)
  | .expressionStatement expression => do
      return (← part expression) ++ [mark .semicolon]
  | .variables declared statement => do
      let closing := if statement then [mark .semicolon] else []
      return [word .varWord, blank] ++ list (← parts declared) ++ closing
  | .variable target initializer => do
      let target ← part target
      return target ++ optional [blank, mark .equal, blank] (← optionalPart initializer)
  | .block statements => do
      return braces level (← statements.mapM (print (level + 1)))
  | .empty => return [mark .semicolon]
  | .ifElse condition thenBranch elseBranch => do
      let condition ← part condition
      let thenBranch ← part thenBranch
      return header .ifWord condition ++ thenBranch ++
        optional [blank, word .elseWord, blank] (← optionalPart elseBranch)
  | .whileLoop condition body => do
      return header .whileWord (← part condition) ++ (← part body)
  | .doWhileLoop body condition => do
      return [word .doWord, blank] ++ (← part body) ++ [blank, word .whileWord, blank] ++
        parens (← part condition) ++ [mark .semicolon]
  | .forLoop initializer condition step body => do
      let initializer ← optionalPart initializer
      let condition ← optionalPart condition
      let step ← optionalPart step
      let gap := [mark .semicolon, blank]
      return header .forWord
          (initializer.getD [] ++ gap ++ condition.getD [] ++ gap ++ step.getD []) ++
        (← part body)
  | .forInLoop iterator subject body => do
      let iterator ← part iterator
      let subject ← part subject
      return header .forWord (iterator ++ [blank, word .inWord, blank] ++ subject) ++
        (← part body)
  | .switchCases discriminant cases => do
      return header .switchWord (← part discriminant) ++
        braces level (← cases.mapM (print (level + 1)))
  | .switchCase test body => do
      let label ←
        match test with
        | some test => do pure ([word .caseWord, blank] ++ (← part test))
        | none => pure [word .defaultWord]
      return label ++ [mark .colon] ++ lines (level + 1) (← body.mapM (print (level + 1)))
  | .breakOff label => do
      return wordStatement .breakWord (← optionalPart label)
  | .continueOn label => do
      return wordStatement .continueWord (← optionalPart label)
  | .returnValue value => do
      return wordStatement .returnWord (← optionalPart value)
  | .throwValue value => do
      return wordStatement .throwWord (some (← part value))
  | .tryCatch body handler finalizer => do
      let body ← part body
      let handler ← optionalPart handler
      let finalizer ← optionalPart finalizer
      return [word .tryWord, blank] ++ body ++ optional [blank] handler ++
        optional [blank, word .finallyWord, blank] finalizer
  | .catchClause parameter body => do
      return header .catchWord (← part parameter) ++ (← part body)
  | .labeled label body => do
      return (← part label) ++ [mark .colon, blank] ++ (← part body)
  | .withObject subject body => do
      return header .withWord (← part subject) ++ (← part body)
  | .skipped text => return [verbatim text]

namespace SyntaxTree

def fragmentsWithin (t : SyntaxTree) :
    Nat → Nat → NodeId → Except TreeFault (List Fragment)
  | 0, _, _ => .error .endless
  | b + 1, level, id =>
      match t.node id with
      | .error fault => .error fault
      | .ok node => node.fragments (t.fragmentsWithin b) level

/-- The fragments of a node that stands at a level. -/
def fragments (t : SyntaxTree) (level : Nat) (id : NodeId) : Except TreeFault (List Fragment) :=
  t.fragmentsWithin t.budget level id

/-- A node printed on its own. -/
def toSource (t : SyntaxTree) (id : NodeId) : Except TreeFault String :=
  (t.fragments 0 id).map textOf

end SyntaxTree
end Syntax
end ScriptHints
