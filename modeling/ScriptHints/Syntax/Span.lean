import ScriptHints.Token.Basic

/-!
# Spans

A span is the part of a text from a first to a last character, both given by line and
column and both included. A span whose line is zero covers nothing: it is the span of a
node that was made without a text.
-/

namespace ScriptHints
namespace Syntax

open Token

structure Span where
  line : Nat
  column : Nat
  endLine : Nat
  endColumn : Nat
deriving DecidableEq, Repr

namespace Span

def none : Span :=
  ⟨0, 0, 0, 0⟩

def point (line column : Nat) : Span :=
  ⟨line, column, line, column⟩

/-- The smallest span that covers both. -/
def union (a b : Span) : Span :=
  if a.line = 0 then b
  else if b.line = 0 then a
  else
    let (line, column) :=
      if a.line < b.line ∨ (a.line = b.line ∧ a.column ≤ b.column) then (a.line, a.column)
      else (b.line, b.column)
    let (endLine, endColumn) :=
      if b.endLine < a.endLine ∨ (a.endLine = b.endLine ∧ b.endColumn ≤ a.endColumn) then
        (a.endLine, a.endColumn)
      else (b.endLine, b.endColumn)
    { line := line, column := column, endLine := endLine, endColumn := endColumn }

def contains (s : Span) (line column : Nat) : Bool :=
  decide (s.line ≠ 0) &&
    decide (s.line < line ∨ (line = s.line ∧ s.column ≤ column)) &&
    decide (line < s.endLine ∨ (line = s.endLine ∧ column ≤ s.endColumn))

/-- The characters of a token; a token without characters counts as one. -/
def ofToken (t : Token) : Span :=
  { line := t.place.line
    column := t.place.column
    endLine := t.place.line
    endColumn := t.place.column + (max t.lexeme.length 1 - 1) }

theorem contains_iff (s : Span) (line column : Nat) :
    s.contains line column = true ↔
      s.line ≠ 0 ∧ (s.line < line ∨ (line = s.line ∧ s.column ≤ column)) ∧
        (line < s.endLine ∨ (line = s.endLine ∧ column ≤ s.endColumn)) := by
  simp [contains, and_assoc]

theorem union_none_left (s : Span) : union none s = s := by
  simp [union, none]

theorem contains_none (line column : Nat) : none.contains line column = false := by
  simp [contains, none]

end Span
end Syntax
end ScriptHints
