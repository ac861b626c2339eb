import ScriptHints.Token.Basic

/-!
# Operators

The operators of the script language, each with the kind of the token it is written as.
Binary operators have a precedence: the higher one binds tighter, and operators of the
same precedence group to the left.
-/

namespace ScriptHints
namespace Syntax

open Token

/-!
## Binary operators
-/

inductive BinaryOperator where
  | or | and | bitOr | bitXor | bitAnd
  | equal | notEqual | strictEqual | strictNotEqual
  | less | lessEqual | greater | greaterEqual | isInstance | isMember
  | shiftLeft | shiftRight | unsignedShiftRight
  | add | subtract | multiply | divide | modulo
deriving DecidableEq, Repr

namespace BinaryOperator

def all : List BinaryOperator :=
  [ .or, .and, .bitOr, .bitXor, .bitAnd,
    .equal, .notEqual, .strictEqual, .strictNotEqual,
    .less, .lessEqual, .greater, .greaterEqual, .isInstance, .isMember,
    .shiftLeft, .shiftRight, .unsignedShiftRight,
    .add, .subtract, .multiply, .divide, .modulo ]

def kind : BinaryOperator → TokenKind
  | .or => .punctuator .pipePipe
  | .and => .punctuator .ampersandAmpersand
  | .bitOr => .punctuator .pipe
  | .bitXor => .punctuator .caret
  | .bitAnd => .punctuator .ampersand
  | .equal => .punctuator .doubleEqual
  | .notEqual => .punctuator .bangEqual
  | .strictEqual => .punctuator .tripleEqual
  | .strictNotEqual => .punctuator .bangDoubleEqual
  | .less => .punctuator .less
  | .lessEqual => .punctuator .lessEqual
  | .greater => .punctuator .greater
  | .greaterEqual => .punctuator .greaterEqual
  | .isInstance => .keyword .instanceofWord
  | .isMember => .keyword .inWord
  | .shiftLeft => .punctuator .lessLess
  | .shiftRight => .punctuator .greaterGreater
  | .unsignedShiftRight => .punctuator .greaterGreaterGreater
  | .add => .punctuator .plus
  | .subtract => .punctuator .minus
  | .multiply => .punctuator .star
  | .divide => .punctuator .slash
  | .modulo => .punctuator .percent

def precedence : BinaryOperator → Nat
  | .or => 1
  | .and => 2
  | .bitOr => 3
  | .bitXor => 4
  | .bitAnd => 5
  | .equal | .notEqual | .strictEqual | .strictNotEqual => 6
  | .less | .lessEqual | .greater | .greaterEqual | .isInstance | .isMember => 7
  | .shiftLeft | .shiftRight | .unsignedShiftRight => 8
  | .add | .subtract => 9
  | .multiply | .divide | .modulo => 10

def symbol (op : BinaryOperator) : String :=
  op.kind.fixedText

def ofKind? (kind : TokenKind) : Option BinaryOperator :=
  all.find? fun op => op.kind = kind

theorem mem_all (op : BinaryOperator) : op ∈ all := by
  cases op <;> decide

theorem precedence_pos (op : BinaryOperator) : 0 < op.precedence := by
  cases op <;> decide

theorem ofKind?_kind (op : BinaryOperator) : ofKind? op.kind = some op := by
  cases op <;> decide

theorem ofKind?_eq_some_iff {kind : TokenKind} {op : BinaryOperator} :
    ofKind? kind = some op ↔ op.kind = kind := by
  constructor
  · intro h
    simpa using List.find?_some h
  · rintro rfl
    exact ofKind?_kind op

end BinaryOperator

/-!
## Assignment operators
-/

inductive AssignmentOperator where
  | assign | add | subtract | multiply | divide | modulo
  | shiftLeft | shiftRight | unsignedShiftRight | bitAnd | bitOr | bitXor
deriving DecidableEq, Repr

namespace AssignmentOperator

def all : List AssignmentOperator :=
  [ .assign, .add, .subtract, .multiply, .divide, .modulo,
    .shiftLeft, .shiftRight, .unsignedShiftRight, .bitAnd, .bitOr, .bitXor ]

def kind : AssignmentOperator → TokenKind
  | .assign => .punctuator .equal
  | .add => .punctuator .plusEqual
  | .subtract => .punctuator .minusEqual
  | .multiply => .punctuator .starEqual
  | .divide => .punctuator .slashEqual
  | .modulo => .punctuator .percentEqual
  | .shiftLeft => .punctuator .lessLessEqual
  | .shiftRight => .punctuator .greaterGreaterEqual
  | .unsignedShiftRight => .punctuator .greaterGreaterGreaterEqual
  | .bitAnd => .punctuator .ampersandEqual
  | .bitOr => .punctuator .pipeEqual
  | .bitXor => .punctuator .caretEqual

def symbol (op : AssignmentOperator) : String :=
  op.kind.fixedText

def ofKind? (kind : TokenKind) : Option AssignmentOperator :=
  all.find? fun op => op.kind = kind

theorem ofKind?_kind (op : AssignmentOperator) : ofKind? op.kind = some op := by
  cases op <;> decide

theorem ofKind?_eq_some_iff {kind : TokenKind} {op : AssignmentOperator} :
    ofKind? kind = some op ↔ op.kind = kind := by
  constructor
  · intro h
    simpa using List.find?_some h
  · rintro rfl
    exact ofKind?_kind op

end AssignmentOperator

/-!
## Unary operators
-/

inductive UnaryOperator where
  | negative | positive | not | bitNot | typeOf | void | delete
deriving DecidableEq, Repr

namespace UnaryOperator

def all : List UnaryOperator :=
  [.negative, .positive, .not, .bitNot, .typeOf, .void, .delete]

def kind : UnaryOperator → TokenKind
  | .negative => .punctuator .minus
  | .positive => .punctuator .plus
  | .not => .punctuator .bang
  | .bitNot => .punctuator .tilde
  | .typeOf => .keyword .typeofWord
  | .void => .keyword .voidWord
  | .delete => .keyword .deleteWord

def symbol (op : UnaryOperator) : String :=
  op.kind.fixedText

/-- Written as a word, so that its operand needs a blank before it. -/
def isWord (op : UnaryOperator) : Bool :=
  match op.kind with
  | .keyword _ => true
  | _ => false

def ofKind? (kind : TokenKind) : Option UnaryOperator :=
  all.find? fun op => op.kind = kind

theorem ofKind?_kind (op : UnaryOperator) : ofKind? op.kind = some op := by
  cases op <;> decide

theorem ofKind?_eq_some_iff {kind : TokenKind} {op : UnaryOperator} :
    ofKind? kind = some op ↔ op.kind = kind := by
  constructor
  · intro h
    simpa using List.find?_some h
  · rintro rfl
    exact ofKind?_kind op

end UnaryOperator

/-!
## Increment and decrement
-/

inductive UpdateOperator where
  | increment | decrement
deriving DecidableEq, Repr

/-- On which side of its operand an update operator stands. -/
inductive UpdateSide where
  | before | behind
deriving DecidableEq, Repr

namespace UpdateOperator

def all : List UpdateOperator :=
  [.increment, .decrement]

def kind : UpdateOperator → TokenKind
  | .increment => .punctuator .plusPlus
  | .decrement => .punctuator .minusMinus

def symbol (op : UpdateOperator) : String :=
  op.kind.fixedText

def ofKind? (kind : TokenKind) : Option UpdateOperator :=
  all.find? fun op => op.kind = kind

theorem ofKind?_kind (op : UpdateOperator) : ofKind? op.kind = some op := by
  cases op <;> decide

theorem ofKind?_eq_some_iff {kind : TokenKind} {op : UpdateOperator} :
    ofKind? kind = some op ↔ op.kind = kind := by
  constructor
  · intro h
    simpa using List.find?_some h
  · rintro rfl
    exact ofKind?_kind op

end UpdateOperator
end Syntax
end ScriptHints
