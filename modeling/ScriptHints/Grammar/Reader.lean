import ScriptHints.Diagnostic
import ScriptHints.Grammar.SyntaxError
import ScriptHints.Syntax.Basic

/-!
# Reading tokens

A reader turns tokens into nodes. It knows the tokens and the text they were made from,
whether it may recover from errors, whether `in` is an operator where it stands, and how
deep it is nested. What it changes is its position among the tokens, the tree it builds
and the diagnostics. An error ends a reading but keeps all three as they are.

How tokens are looked up is left to a machine. The machine that everything runs on trusts
every index; a checked machine stops where an index names no token.
-/

namespace ScriptHints
namespace Grammar

open Syntax Token

structure Options where
  /-- Statements that cannot be read are skipped, and the end of the text closes brackets. -/
  recover : Bool
  /-- Diagnostics are collected. -/
  report : Bool
deriving DecidableEq, Repr

namespace Options

def strict : Options :=
  { recover := false, report := true }

/-- For text that is being typed. -/
def lenient : Options :=
  { recover := true, report := false }

end Options

structure Context where
  text : List Char
  stream : TokenStream
  options : Options
  allowIn : Bool
  depth : Nat

structure State where
  position : Nat
  tree : SyntaxTree
  diagnostics : Diagnostics

def State.start : State :=
  { position := 0, tree := SyntaxTree.empty, diagnostics := Diagnostics.empty }

abbrev Reader :=
  EStateM SyntaxError State

namespace Context

/-- Where `in` is an operator again, as between brackets. -/
def allowingIn (c : Context) : Context :=
  { c with allowIn := true }

/-- In the header of a `for` loop, where `in` ends the initializer. -/
def forbiddingIn (c : Context) : Context :=
  { c with allowIn := false }

/-- The span of the tokens from `first` up to, but without, `stop`; never empty. -/
def spanOf (c : Context) (first stop : Nat) : Span :=
  Span.union (Span.ofToken (c.stream.get first))
    (Span.ofToken (c.stream.get (max (stop - 1) first)))

/-- The text from the first character of a token to the last one of another. -/
def textBetween (c : Context) (first last : Token) : String :=
  Token.textBetween c.text first last

/-- The text of the tokens from `first` up to, but without, `stop`. -/
def textOf (c : Context) (first stop : Nat) : String :=
  if stop ≤ first then ""
  else c.textBetween (c.stream.get first) (c.stream.get (stop - 1))

end Context

/-!
## Machines
-/

class Machine where
  /-- The token at an index. -/
  look (stream : TokenStream) (index : Int) : Reader Token
  /-- Reads, and goes on with the error of a reading that failed. -/
  attempt {α : Type} (read : Reader α) (handle : SyntaxError → Reader α) : Reader α

namespace Machine

/-- Takes the token at an index for granted. -/
instance trusting : Machine where
  look stream index := return stream.get index.toNat
  attempt read handle := tryCatch read handle

/-- Stops for good where an index names no token. -/
@[reducible] def checked : Machine where
  look stream index :=
    if 0 ≤ index ∧ index ≤ stream.size then
      return stream.get index.toNat
    else
      throw { fault := .exhausted, found := stream.stop }
  attempt read handle :=
    tryCatch read fun e => if e.fault = .exhausted then throw e else handle e

end Machine

/-!
## Looking and moving
-/

def position : Reader Nat := do
  return (← get).position

section

variable [Machine]

def peek (c : Context) : Reader Token := do
  Machine.look c.stream (← position)

def peekKind (c : Context) : Reader TokenKind := do
  return (← peek c).kind

/-- Moves behind the next token; the end of the text is never passed. The token that is left
behind is looked at, so there has to be one. -/
def advance (c : Context) : Reader Unit := do
  let _ ← peek c
  modify fun s => if s.position < c.stream.size then { s with position := s.position + 1 } else s
  let _ ← Machine.look c.stream ((← position) - 1 : Int)

def fail (c : Context) (fault : SyntaxFault) : Reader α := do
  throw { fault := fault, found := ← peek c }

/-- Moves behind the next token if it is of the kind, and tells whether it was. -/
def accept (c : Context) (kind : TokenKind) : Reader Bool := do
  if (← peekKind c) = kind then
    advance c
    return true
  else
    return false

/-!
## Building and reporting
-/

/-- The span of the tokens read since the position `start`; never empty. -/
def spanSince (c : Context) (start : Nat) : Reader Span := do
  let first := min start c.stream.size
  let last := min (max ((← position) - 1) first) c.stream.size
  return Span.union (Span.ofToken (← Machine.look c.stream first))
    (Span.ofToken (← Machine.look c.stream last))

/-- Adds a node for the tokens read since the position `start`. -/
def addSince (c : Context) (start : Nat) (node : Node) : Reader NodeId := do
  let span ← spanSince c start
  modifyGet fun s => (s.tree.nextId, { s with tree := s.tree.add node span })

def report (c : Context) (level : Level) (message : String) (span : Span) : Reader Unit := do
  if c.options.report then
    modify fun s =>
      { s with
        diagnostics :=
          s.diagnostics.report { level := level, message := message, span := some span } }

/-!
## Requirements
-/

def expect (c : Context) (mark : Punctuator) (what : Expectation) : Reader Unit := do
  unless ← accept c (.punctuator mark) do
    fail c (.expected what)

/-- Warns that the end of the text stands for a missing token. -/
def warnClosedByEnd (c : Context) (what : Expectation) : Reader Unit := do
  report c .warning s!"{what.text}; closed at end of input" (Span.ofToken (← peek c))

/-- A closing bracket, for which the end of the text may stand during recovery. -/
def expectClosing (c : Context) (mark : Punctuator) (what : Expectation) : Reader Unit := do
  if (← peekKind c) = .endOfText && c.options.recover then
    warnClosedByEnd c what
  else
    expect c mark what

/-- A semicolon, which may be missing before a closing brace, at the end of the text and
behind the end of a line. -/
def endStatement (c : Context) (what : Expectation) : Reader Unit := do
  let next ← peek c
  if next.kind = .punctuator .semicolon then
    advance c
  else if next.kind = .punctuator .closeBrace || next.kind = .endOfText || next.newlineBefore then
    return
  else
    fail c (.expected what)

/-- A name that is given to something: a variable, a parameter, a function, a label. -/
def newName (c : Context) (what : Expectation) : Reader NodeId := do
  let start ← position
  let next ← peek c
  if next.kind = .identifier then
    advance c
    addSince c start (.identifier next.lexeme)
  else
    fail c (.expected what)

/-- Reads one level deeper, unless that is too deep. -/
def nested (c : Context) (read : Context → Reader α) : Reader α := do
  if nestingLimit ≤ c.depth then
    fail c .tooDeep
  else
    read { c with depth := c.depth + 1 }

end

end Grammar
end ScriptHints
