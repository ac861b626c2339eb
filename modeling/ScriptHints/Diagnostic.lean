import ScriptHints.Syntax.Span

/-!
# Diagnostics

A diagnostic is a message about a text with the part of the text it is about, if there is
one. Diagnostics are kept in the order in which they were reported.
-/

namespace ScriptHints

open Syntax

inductive Level where
  | error | warning
deriving DecidableEq, Repr

def Level.label : Level → String
  | .error => "error"
  | .warning => "warning"

structure Diagnostic where
  level : Level
  message : String
  span : Option Span
deriving DecidableEq, Repr

def Diagnostic.text (d : Diagnostic) : String :=
  match d.span with
  | some span => s!"{d.level.label} at line {span.line}, column {span.column}: {d.message}"
  | none => s!"{d.level.label}: {d.message}"

/-- A collection of diagnostics in the order of their reports. -/
structure Diagnostics where
  entries : Array Diagnostic
deriving DecidableEq, Repr

namespace Diagnostics

def empty : Diagnostics :=
  ⟨#[]⟩

def report (ds : Diagnostics) (d : Diagnostic) : Diagnostics :=
  ⟨ds.entries.push d⟩

def append (ds more : Diagnostics) : Diagnostics :=
  ⟨ds.entries ++ more.entries⟩

def size (ds : Diagnostics) : Nat :=
  ds.entries.size

def isEmpty (ds : Diagnostics) : Bool :=
  ds.entries.isEmpty

def hasErrors (ds : Diagnostics) : Bool :=
  ds.entries.any fun d => d.level = .error

def toList (ds : Diagnostics) : List Diagnostic :=
  ds.entries.toList

@[simp] theorem toList_empty : empty.toList = [] := rfl

@[simp] theorem toList_report (ds : Diagnostics) (d : Diagnostic) :
    (ds.report d).toList = ds.toList ++ [d] := by
  simp [report, toList]

@[simp] theorem toList_append (ds more : Diagnostics) :
    (ds.append more).toList = ds.toList ++ more.toList := by
  simp [append, toList]

theorem eq_of_toList_eq {ds ds' : Diagnostics} (h : ds.toList = ds'.toList) : ds = ds' := by
  cases ds
  cases ds'
  exact congrArg Diagnostics.mk (Array.toList_inj.mp h)

end Diagnostics
end ScriptHints
