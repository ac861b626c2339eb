import ScriptHints.Diagnostic

/-!
# Diagnostics with an excerpt

A diagnostic is shown with the place it is about and, if the text has such a line, with
that line and marks below the span. Lines end at line feeds; a carriage return before the
line feed belongs to the end of the line. Tabs are shown as four blanks.
-/

namespace ScriptHints
namespace Command

open Syntax

/-!
## Lines
-/

/-- The lines of a text with a line feed at the end of each but perhaps the last. -/
def linesFrom (line : List Char) : List Char → List (List Char)
  | [] => if line.isEmpty then [] else [line.reverse]
  | c :: text =>
      if c = '\n' then
        let line := if line.head? = some '\r' then line.tail else line
        line.reverse :: linesFrom [] text
      else linesFrom (c :: line) text

def linesOf (text : String) : List (List Char) :=
  linesFrom [] text.toList

/-!
## Excerpts
-/

def blanks (n : Nat) : List Char :=
  List.replicate n ' '

def expandTab (c : Char) : List Char :=
  if c = '\t' then blanks 4 else [c]

/-- Blanks as wide as the character is shown. -/
def blankOut (c : Char) : List Char :=
  if c = '\t' then blanks 4 else [' ']

/-- The number of marks below a span; the part of it on its first line is marked. -/
def markWidth (span : Span) : Nat :=
  if span.endLine = span.line then span.endColumn - span.column + 1 else 1

/-- A line and the marks below a span on it. -/
def excerpt (line : List Char) (span : Span) : List String :=
  let margin := blanks 6
  [ String.ofList (margin ++ line.flatMap expandTab),
    String.ofList
      (margin ++ (line.take (span.column - 1)).flatMap blankOut ++
        List.replicate (markWidth span) '^') ]

def marker : Level → String
  | .error => "  -"
  | .warning => "  ~"

/-- A diagnostic about the text of a file, line by line. -/
def diagnosticLines (path : String) (lines : List (List Char)) (d : Diagnostic) : List String :=
  let heading := s!"{marker d.level} {d.level.label}: {d.message}"
  match d.span with
  | none => [heading]
  | some span =>
      let place := s!"     --> {path}:{span.line}:{span.column}"
      match lines[span.line - 1]? with
      | none => [heading, place]
      | some line => heading :: place :: excerpt line span

end Command
end ScriptHints
