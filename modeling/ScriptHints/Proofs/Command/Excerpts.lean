import ScriptHints.Command.Excerpt
import ScriptHints.Proofs.Recovery.ReportedSpans
import ScriptHints.Proofs.Token.SourceLines

/-!
# Excerpts

A diagnostic is shown with a line of the text, and the lines that are shown end at line feeds
only. If nothing else ends a line in the text, then the line shown is the one that the lexer
counted, and the marks stand below the column that it counted. Where something else ends a line,
the lines behind it are shown for others.
-/

namespace ScriptHints
namespace Command

open Text Token Syntax Grammar

/-- Lines end at line feeds only, which may have a carriage return before them. -/
def LineFed (text : List Char) : Prop :=
  forall front c behind, text = front ++ c :: behind -> isLineTerminator c = true ->
    c = '\n' ∨ (c = '\r' ∧ behind.head? = some '\n')

def withoutEmptyLast (lines : List (List Char)) : List (List Char) :=
  if lines.getLast? = some [] then lines.dropLast else lines

/-!
## Lines of a text
-/

theorem LineFed.tail {c : Char} {text : List Char} (h : LineFed (c :: text)) : LineFed text := by
  intro front d behind hsplit
  apply h (c :: front) d behind
  rw [hsplit]
  rfl

theorem withoutEmptyLast_cons (line : List Char) {lines : List (List Char)} (h : lines ≠ []) :
    withoutEmptyLast (line :: lines) = line :: withoutEmptyLast lines := by
  unfold withoutEmptyLast
  rcases List.exists_cons_of_ne_nil h with ⟨next, more, rfl⟩
  rw [List.getLast?_cons_cons]
  split
  next => rfl
  next => rfl

theorem getElem?_withoutEmptyLast {lines : List (List Char)} {n : Nat} {line : List Char}
    (h : lines[n]? = some line) :
    (withoutEmptyLast lines)[n]? = some line ∨
      ((withoutEmptyLast lines)[n]? = none ∧ line = [] ∧ n + 1 = lines.length) := by
  unfold withoutEmptyLast
  split
  next hempty =>
    rcases List.getElem?_eq_some_iff.mp h with ⟨hn, hline⟩
    rw [List.getElem?_dropLast]
    by_cases hlast : n < lines.length - 1
    · rw [if_pos hlast]
      exact .inl h
    · rw [if_neg hlast]
      have hend : lines.length - 1 = n := by omega
      rw [List.getLast?_eq_getElem?, hend, h] at hempty
      exact .inr ⟨rfl, Option.some.inj hempty, by omega⟩
  next => exact .inl h

theorem linesFrom_eq {line text : List Char} (hfed : LineFed text)
    (hline : forall c, c ∈ line -> isLineTerminator c = false) :
    linesFrom line text =
      withoutEmptyLast ((splitLines text).modifyHead (line.reverse ++ ·)) := by
  fun_induction splitLines text generalizing line with
  | case1 =>
      cases line with
      | nil => rfl
      | cons c line => simp [linesFrom, withoutEmptyLast]
  | case2 text ih =>
      rw [List.modifyHead_cons, List.append_nil, withoutEmptyLast_cons _ (splitLines_ne_nil text)]
      have hrest : linesFrom [] text = withoutEmptyLast (splitLines text) := by
        rw [ih hfed.tail.tail fun c hc => absurd hc List.not_mem_nil]
        exact congrArg withoutEmptyLast (congrFun List.modifyHead_id _)
      rw [← hrest]
      rfl
  | case3 c text hsingle hterminator ih =>
      have hc : c = '\n' := by
        rcases hfed [] c text rfl hterminator with hfeed | ⟨hreturn, hnext⟩
        · exact hfeed
        · rcases List.head?_eq_some_iff.mp hnext with ⟨more, hmore⟩
          exact (hsingle more hreturn hmore).elim
      have hhead : line.head? ≠ some '\r' := by
        intro hhead
        have hreturn := hline '\r' (List.mem_of_head? hhead)
        cases hreturn
      rw [List.modifyHead_cons, List.append_nil, withoutEmptyLast_cons _ (splitLines_ne_nil text)]
      have hrest : linesFrom [] text = withoutEmptyLast (splitLines text) := by
        rw [ih hfed.tail fun c hc => absurd hc List.not_mem_nil]
        exact congrArg withoutEmptyLast (congrFun List.modifyHead_id _)
      rw [← hrest, linesFrom, if_pos hc]
      dsimp only
      rw [if_neg hhead]
  | case4 c text hsingle hother ih =>
      have hinline := Bool.eq_false_iff.mpr hother
      have hc : ¬ c = '\n' := by
        rintro rfl
        cases hinline
      have hline' : forall d, d ∈ c :: line -> isLineTerminator d = false := by
        intro d hd
        rcases List.mem_cons.mp hd with rfl | hd
        · exact hinline
        · exact hline d hd
      rw [linesFrom, if_neg hc, ih hfed.tail hline', List.modifyHead_modifyHead]
      congr 2
      funext rest
      simp

theorem linesOf_eq {text : String} (hfed : LineFed text.toList) :
    linesOf text = withoutEmptyLast (splitLines text.toList) := by
  unfold linesOf
  rw [linesFrom_eq hfed fun c hc => absurd hc List.not_mem_nil]
  exact congrArg withoutEmptyLast (congrFun List.modifyHead_id _)

/-!
## Diagnostics of a script
-/

def headingOf (d : Diagnostic) : String :=
  s!"{marker d.level} {d.level.label}: {d.message}"

def placeOf (path : String) (span : Span) : String :=
  s!"     --> {path}:{span.line}:{span.column}"

def markedLine (before behind : List Char) (marks : Nat) : List String :=
  [ String.ofList (blanks 6 ++ (before ++ behind).flatMap expandTab),
    String.ofList (blanks 6 ++ before.flatMap blankOut ++ List.replicate marks '^') ]

/-- The blanks before the marks are as wide as what they stand below. -/
theorem length_flatMap_blankOut (before : List Char) :
    (before.flatMap blankOut).length = (before.flatMap expandTab).length := by
  induction before with
  | nil => rfl
  | cons c before ih =>
      rw [List.flatMap_cons, List.flatMap_cons, List.length_append, List.length_append, ih]
      unfold blankOut expandTab
      split <;> rfl

theorem excerpt_eq {span : Span} {before behind : List Char}
    (h : before.length + 1 = span.column) :
    excerpt (before ++ behind) span = markedLine before behind (markWidth span) := by
  unfold excerpt
  rw [← h, Nat.add_sub_cancel, List.take_left]
  rfl

theorem diagnosticLines_eq {text : String} (hfed : LineFed text.toList) {d : Diagnostic}
    {span : Span} (hspan : d.span = some span) {before behind : List Char}
    (h : LeadsTo text.toList span.line span.column before behind) (path : String) :
    diagnosticLines path (linesOf text) d =
        headingOf d :: placeOf path span :: markedLine before behind (markWidth span) ∨
      (diagnosticLines path (linesOf text) d = [headingOf d, placeOf path span] ∧
        before ++ behind = [] ∧ span.line = (splitLines text.toList).length) := by
  unfold diagnosticLines
  rw [hspan, linesOf_eq hfed]
  rcases getElem?_withoutEmptyLast h.line with hshown | ⟨hnone, hempty, hlast⟩
  · left
    simp only [hshown, excerpt_eq h.column]
    rfl
  · right
    simp only [hnone]
    have hcounted := h.counted
    exact ⟨rfl, hempty, by omega⟩

/--
Every diagnostic of a script with such lines is shown with the line that its span begins in, as
the lexer counts lines, and with the marks below the column that its span begins at.
-/
theorem diagnosticLines_of_lineFed {text : String} (hfed : LineFed text.toList) {o : Options}
    {tree : SyntaxTree} {ds : Diagnostics} (h : parseScript text o = .ok (tree, ds))
    {d : Diagnostic} (hd : d ∈ ds.toList) (path : String) :
    exists span before behind, d.span = some span ∧
      LeadsTo text.toList span.line span.column before behind ∧
      (diagnosticLines path (linesOf text) d =
          headingOf d :: placeOf path span :: markedLine before behind (markWidth span) ∨
        (diagnosticLines path (linesOf text) d = [headingOf d, placeOf path span] ∧
          before ++ behind = [] ∧ span.line = (splitLines text.toList).length)) := by
  cases htokens : tokensOf text with
  | error e =>
      rw [parseScript_of_lexical htokens] at h
      cases h
  | ok stream =>
      rcases parseScript_aboutTokens htokens h d hd with ⟨t, ht, hspan⟩
      rcases tokensOf_leadsTo htokens ht with ⟨before, behind, hleads⟩
      exact ⟨Span.ofToken t, before, behind, hspan, hleads,
        diagnosticLines_eq hfed hspan hleads path⟩

theorem diagnosticLines_of_lineFed_strayParenthesis :
    exists tree ds d, parseScript "a;\n)" .recovering = .ok (tree, ds) ∧ d ∈ ds.toList ∧
      exists span before behind, d.span = some span ∧
        LeadsTo "a;\n)".toList span.line span.column before behind ∧
        (diagnosticLines "f.js" (linesOf "a;\n)") d =
            headingOf d :: placeOf "f.js" span :: markedLine before behind (markWidth span) ∨
          (diagnosticLines "f.js" (linesOf "a;\n)") d = [headingOf d, placeOf "f.js" span] ∧
            before ++ behind = [] ∧ span.line = (splitLines "a;\n)".toList).length)) := by
  have hfed : LineFed "a;\n)".toList := by
    intro front c behind hsplit hline
    have hall : "a;\n)".toList.all (fun c => !isLineTerminator c || c = '\n') = true := by
      decide
    have hc := List.all_eq_true.mp hall c (by simp [hsplit])
    exact .inl (by simpa [hline] using hc)
  have hreported : (parseScript "a;\n)" .recovering).toOption.any (·.2.toList ≠ []) = true := by
    decide +kernel
  cases hparse : parseScript "a;\n)" .recovering with
  | error e =>
      rw [hparse] at hreported
      cases hreported
  | ok result =>
      rcases result with ⟨tree, ds⟩
      rw [hparse] at hreported
      have hsome : ds.toList ≠ [] := of_decide_eq_true hreported
      rcases List.exists_mem_of_ne_nil ds.toList hsome with ⟨d, hd⟩
      exact ⟨tree, ds, d, rfl, hd, diagnosticLines_of_lineFed hfed hparse hd "f.js"⟩

/-- Behind a carriage return that ends a line by itself, the lines that are shown are others. -/
example : splitLines "a;\r)\nb".toList = ["a;".toList, ")".toList, "b".toList] ∧
    linesOf "a;\r)\nb" = ["a;\r)".toList, "b".toList] := by
  decide

end Command
end ScriptHints
