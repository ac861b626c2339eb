import ScriptHints.Grammar.Statement
import ScriptHints.Token.Lexer

/-!
# Parsing

The rules of the grammar, tied together, are a strategy that reaches every goal. How often
it may apply a rule inside a rule is bounded by a budget, and the budget of a parser is
large enough for its tokens. A parser reads scripts and expressions one behind the other:
a reading that succeeds hands its tree over and leaves the parser an empty one, and a
reading that fails leaves what it has built so far in the tree of the parser.
-/

namespace ScriptHints
namespace Grammar

open Syntax Token

variable [Machine]

/-!
## The grammar as a whole
-/

/-- One rule of the grammar, with a strategy for the goals that it leads to. -/
def applyRule (reach : Strategy) : Strategy
  | .statements listEnd, c => statementsRule reach listEnd c
  | .statement, c => nested c (statementRule reach)
  | .branch, c => branchRule reach c
  | .variables, c => variablesRule reach c
  | .cases, c => casesRule reach c
  | .parameters, c => parametersRule reach c
  | .expression, c => expressionRule reach c
  | .sequenceTail, c => sequenceTailRule reach c
  | .assignment, c => assignmentRule reach c
  | .binary floor, c => binaryRule reach floor c
  | .binaryTail floor start left, c => binaryTailRule reach floor start left c
  | .unary, c => nested c (unaryRule reach)
  | .member calls, c => memberRule reach calls c
  | .memberTail calls start front, c => memberTailRule reach calls start front c
  | .arguments, c => argumentsRule reach c
  | .elements, c => elementsRule reach c
  | .properties, c => propertiesRule reach c

/-- The grammar with a budget of rules inside rules. -/
def grammar : Nat → Strategy
  | 0, _, c => fail c .exhausted
  | budget + 1, goal, c => applyRule (grammar budget) goal c

/-- No more than this many rules are entered without reading a token. -/
def rulesPerToken : Nat :=
  16

def Context.budget (c : Context) : Nat :=
  rulesPerToken * (c.stream.size + 2)

/-!
## Parsers
-/

structure Parser where
  context : Context
  state : State

namespace Parser

def ofTokens (text : String) (stream : TokenStream) (options : Options) : Parser :=
  { context :=
      { text := text.toList, stream := stream, options := options, allowIn := true, depth := 0 }
    state := State.start }

/-- The tree of a successful reading, and the parser behind the reading. -/
def run (p : Parser) (read : Reader NodeId) : Except SyntaxError SyntaxTree × Parser :=
  match read.run p.state with
  | .ok root s =>
      (.ok (s.tree.withRoot root), { p with state := { s with tree := SyntaxTree.empty } })
  | .error e s => (.error e, { p with state := s })

def readScript (c : Context) : Reader NodeId := do
  let start ← position
  let statements ← grammar c.budget (.statements .none) c
  addSince c start (.script statements)

/-- An expression with nothing behind it. -/
def readExpression (c : Context) : Reader NodeId := do
  let expression ← grammar c.budget .expression c
  if (← peekKind c) = .endOfText then
    return expression
  else
    fail c .behindExpression

def script (p : Parser) : Except SyntaxError SyntaxTree × Parser :=
  p.run (readScript p.context)

def expression (p : Parser) : Except SyntaxError SyntaxTree × Parser :=
  p.run (readExpression p.context)

def diagnostics (p : Parser) : Diagnostics :=
  p.state.diagnostics

end Parser

/-!
## Texts
-/

inductive ParseError where
  | lexical (error : LexicalError)
  | syntactic (error : SyntaxError)
deriving DecidableEq, Repr

def ParseError.message : ParseError → String
  | .lexical e => e.message
  | .syntactic e => e.message

def Parser.ofText (text : String) (options : Options) : Except LexicalError Parser :=
  (tokensOf text).map fun stream => Parser.ofTokens text stream options

/-- The tree of a script and the diagnostics of its reading. -/
def parseScript (text : String) (options : Options) :
    Except ParseError (SyntaxTree × Diagnostics) :=
  match Parser.ofText text options with
  | .error e => .error (.lexical e)
  | .ok parser =>
      match parser.script with
      | (.ok tree, parser) => .ok (tree, parser.diagnostics)
      | (.error e, _) => .error (.syntactic e)

/-- The tree of an expression, which is its root. -/
def parseExpression (text : String) (options : Options) : Except ParseError SyntaxTree :=
  match Parser.ofText text options with
  | .error e => .error (.lexical e)
  | .ok parser =>
      match parser.expression with
      | (.ok tree, _) => .ok tree
      | (.error e, _) => .error (.syntactic e)

end Grammar
end ScriptHints
