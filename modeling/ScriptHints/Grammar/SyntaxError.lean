import ScriptHints.Token.Basic

/-!
# Syntax errors

A syntax error is a fault and the token at which it was found. Most faults are a token
that the grammar requires and that is not there; an expectation names the place in the
grammar that requires it.
-/

namespace ScriptHints
namespace Grammar

open Token

/-!
## Expectations
-/

/-- The forms that begin with a condition in parentheses. -/
inductive Header where
  | ifElse | whileLoop | doWhileLoop | withObject | switchCases
deriving DecidableEq, Repr

def Header.word : Header → String
  | .ifElse => "if"
  | .whileLoop => "while"
  | .doWhileLoop => "do-while"
  | .withObject => "with"
  | .switchCases => "switch"

inductive Expectation where
  | openBlock | closeBlock
  | variableName | endOfDeclaration
  | openHeader (header : Header) | closeHeader (header : Header)
  | openFor | endOfForInitializer | endOfForCondition | closeFor | closeForIn
  | label | endOfJump | endOfReturn | endOfThrow | endOfExpression
  | openSwitch | caseOrDefault | endOfCaseLabel | closeSwitch
  | openCatch | catchParameter | closeCatch
  | functionName | openParameters | parameterName | closeParameters
  | conditionalColon | closeIndex | openArguments | closeArguments
  | closeParentheses | closeArray | propertyColon | closeObject
deriving DecidableEq, Repr

def Expectation.text : Expectation → String
  | .openBlock => "expected '\x7b' to start block"
  | .closeBlock => "expected '\x7d' to close block"
  | .variableName => "expected identifier after 'var'"
  | .endOfDeclaration => "expected ';' after variable declaration"
  | .openHeader header => s!"expected '(' after '{header.word}'"
  | .closeHeader header => s!"expected ')' after {header.word} condition"
  | .openFor => "expected '(' after 'for'"
  | .endOfForInitializer => "expected ';' after for-loop initializer"
  | .endOfForCondition => "expected ';' after for-loop condition"
  | .closeFor => "expected ')' after for-loop header"
  | .closeForIn => "expected ')' after for-in header"
  | .label => "expected label"
  | .endOfJump => "expected ';' after jump statement"
  | .endOfReturn => "expected ';' after return statement"
  | .endOfThrow => "expected ';' after throw statement"
  | .endOfExpression => "expected ';' after expression"
  | .openSwitch => "expected '\x7b' to start switch body"
  | .caseOrDefault => "expected 'case' or 'default' in switch body"
  | .endOfCaseLabel => "expected ':' after switch case"
  | .closeSwitch => "expected '\x7d' to close switch"
  | .openCatch => "expected '(' after 'catch'"
  | .catchParameter => "expected catch parameter name"
  | .closeCatch => "expected ')' after catch parameter"
  | .functionName => "expected function name"
  | .openParameters => "expected '(' after function name"
  | .parameterName => "expected parameter name"
  | .closeParameters => "expected ',' or ')' in parameter list"
  | .conditionalColon => "expected ':' in conditional expression"
  | .closeIndex => "expected ']' after index expression"
  | .openArguments => "expected '(' to start argument list"
  | .closeArguments => "expected ',' or ')' in argument list"
  | .closeParentheses => "expected ')' after expression"
  | .closeArray => "expected ',' or ']' in array literal"
  | .propertyColon => "expected ':' after property name"
  | .closeObject => "expected ',' or '\x7d' in object literal"

/-!
## Faults
-/

inductive SyntaxFault where
  | expected (what : Expectation)
  | endOfText
  | unexpectedToken
  | behindExpression
  | propertyName
  | functionName
  | loopCondition
  | thrownValue
  | handler
  | tooDeep
  /-- The reader stopped before the text was read: its budget ran out, or it looked for a
  token that is not there. Neither happens. -/
  | exhausted
deriving DecidableEq, Repr

structure SyntaxError where
  fault : SyntaxFault
  found : Token
deriving DecidableEq, Repr

/-- Statements, operands of unary operators and targets of constructions nest no deeper. -/
def nestingLimit : Nat :=
  256

def SyntaxFault.subject (fault : SyntaxFault) (found : Token) : String :=
  match fault with
  | .expected what => what.text
  | .endOfText => "unexpected end of input"
  | .unexpectedToken => s!"unexpected token {found.kind.shown}"
  | .behindExpression => s!"unexpected '{found.lexeme}' after expression"
  | .propertyName => s!"expected property name, found {found.kind.shown}"
  | .functionName => "expected function name after 'function'"
  | .loopCondition => "expected 'while' after do-loop body"
  | .thrownValue => "expected expression after 'throw'"
  | .handler => "expected 'catch' or 'finally' after try block"
  | .tooDeep => s!"nesting deeper than {nestingLimit} levels"
  | .exhausted => "reading stopped"

def SyntaxError.message (e : SyntaxError) : String :=
  let place := s!"line {e.found.place.line}, column {e.found.place.column}"
  let found :=
    match e.fault with
    | .expected _ => s!" (found '{e.found.lexeme}')"
    | _ => ""
  s!"{e.fault.subject e.found} at {place}{found}"

end Grammar
end ScriptHints
