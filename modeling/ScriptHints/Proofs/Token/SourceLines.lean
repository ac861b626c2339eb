import ScriptHints.Proofs.Token.Positions

/-!
# Lines of a text

Four characters end a line, and a carriage return with a line feed behind it ends one line. A
text is split into lines by this rule, and every token stands in the line and at the column that
its place tells.
-/

namespace ScriptHints
namespace Text

open Token

def splitLines : List Char → List (List Char)
  | [] => [[]]
  | '\r' :: '\n' :: text => [] :: splitLines text
  | c :: text =>
      if isLineTerminator c then [] :: splitLines text
      else (splitLines text).modifyHead (c :: ·)

def firstLine (text : List Char) : List Char :=
  text.takeWhile fun c => !isLineTerminator c

/-- A line and a column, both counted from one, lead to a place between two parts of the line. -/
structure LeadsTo (text : List Char) (line column : Nat) (before behind : List Char) : Prop where
  counted : 0 < line
  line : (splitLines text)[line - 1]? = some (before ++ behind)
  column : before.length + 1 = column

/-!
## Splitting
-/

theorem splitLines_terminator {c : Char} (hc : isLineTerminator c = true) {text : List Char}
    (hapart : Apart [c] text) : splitLines (c :: text) = [] :: splitLines text := by
  rw [splitLines.eq_def]
  split
  next heq => cases heq
  next heq =>
      cases heq
      exact absurd ⟨rfl, rfl⟩ hapart
  next heq =>
      cases heq
      rw [if_pos hc]

theorem splitLines_inline {c : Char} (hc : isLineTerminator c = false) (text : List Char) :
    splitLines (c :: text) = (splitLines text).modifyHead (c :: ·) := by
  rw [splitLines.eq_def]
  split
  next heq => cases heq
  next heq =>
      cases heq
      cases hc
  next heq =>
      cases heq
      rw [if_neg (by rw [hc]; exact nofun)]

theorem splitLines_ne_nil (text : List Char) : splitLines text ≠ [] := by
  fun_induction splitLines text with
  | case1 => exact nofun
  | case2 => exact nofun
  | case3 => exact nofun
  | case4 c text hsingle hother ih =>
      intro hnil
      exact ih (List.modifyHead_eq_nil_iff.mp hnil)

theorem firstLine_inline {c : Char} (hc : isLineTerminator c = false) (text : List Char) :
    firstLine (c :: text) = c :: firstLine text :=
  List.takeWhile_cons_of_pos (by rw [hc]; rfl)

theorem firstLine_terminator {c : Char} (hc : isLineTerminator c = true) (text : List Char) :
    firstLine (c :: text) = [] :=
  List.takeWhile_cons_of_neg (by rw [hc]; exact nofun)

theorem head?_splitLines (text : List Char) : (splitLines text).head? = some (firstLine text) := by
  fun_induction splitLines text with
  | case1 => rfl
  | case2 text => rfl
  | case3 c text hsingle hterminator => rw [firstLine_terminator hterminator, List.head?_cons]
  | case4 c text hsingle hother ih =>
      rw [firstLine_inline (Bool.eq_false_iff.mpr hother), List.head?_modifyHead, ih]
      rfl

theorem lastLine_terminator {c : Char} (hc : isLineTerminator c = true) (text : List Char) :
    lastLine (c :: text) = lastLine text := by
  rw [lastLine_cons, if_pos hc]
  split
  · rfl
  · rename_i hnone
    exact (lastLine_of_inline (Bool.eq_false_iff.mpr hnone)).symm

/-- A place behind some line ends is in the line that is not ended there. -/
theorem getElem?_splitLines {front rest : List Char} (hapart : Apart front rest) :
    (splitLines (front ++ rest))[lineEnds front]? = some (lastLine front ++ firstLine rest) := by
  fun_induction lineEnds front with
  | case1 =>
      rw [List.nil_append, ← List.head?_eq_getElem?, head?_splitLines]
      rfl
  | case2 text ih =>
      have hreturn : isLineTerminator '\r' = true := by decide
      have hfeed : isLineTerminator '\n' = true := by decide
      rw [lastLine_terminator hreturn, lastLine_terminator hfeed, ← ih hapart.tail.tail]
      rfl
  | case3 c text hsingle hterminator ih =>
      have hends : Apart [c] (text ++ rest) := by
        cases text with
        | nil => exact hapart
        | cons d text =>
            rintro ⟨hc, hd⟩
            exact hsingle text (Option.some.inj hc) (congrArg (· :: text) (Option.some.inj hd))
      rw [List.cons_append, splitLines_terminator hterminator hends,
        lastLine_terminator hterminator, ← ih hapart.tail]
      rfl
  | case4 c text hsingle hother ih =>
      have hinline := Bool.eq_false_iff.mpr hother
      have ih := ih hapart.tail
      rw [List.cons_append, splitLines_inline hinline]
      cases hends : lineEnds text with
      | zero =>
          have hnone := (lineEnds_eq_zero_iff text).mp hends
          have hall : (c :: text).any isLineTerminator = false := by
            rw [List.any_cons, hinline, hnone]
            rfl
          rw [hends, ← List.head?_eq_getElem?] at ih
          rw [← List.head?_eq_getElem?, List.head?_modifyHead, ih, lastLine_of_inline hnone,
            lastLine_of_inline hall]
          rfl
      | succ n =>
          have hsome : text.any isLineTerminator = true := by
            apply Decidable.byContradiction
            intro hnone
            have hzero := (lineEnds_eq_zero_iff text).mpr (Bool.eq_false_iff.mpr hnone)
            rw [hends] at hzero
            cases hzero
          rw [hends] at ih
          rw [lastLine_cons, if_pos hsome, ← ih]
          cases splitLines (text ++ rest) <;> rfl

theorem line_after_start (front : List Char) :
    (Place.start.after front).line = lineEnds front + 1 := by
  rw [after_eq]
  exact Nat.add_comm _ _

theorem column_after_start (front : List Char) :
    (Place.start.after front).column = (lastLine front).length + 1 := by
  rw [after_eq]
  show (if front.any isLineTerminator then (lastLine front).length + 1 else 1 + front.length) = _
  split
  next => rfl
  next hnone => rw [lastLine_of_inline (Bool.eq_false_iff.mpr hnone), Nat.add_comm]

theorem leadsTo_after_start {front rest : List Char} (hapart : Apart front rest) :
    LeadsTo (front ++ rest) (Place.start.after front).line (Place.start.after front).column
      (lastLine front) (firstLine rest) := by
  refine ⟨?_, ?_, (column_after_start front).symm⟩
  · rw [line_after_start]
    exact Nat.succ_pos _
  · rw [line_after_start, Nat.add_sub_cancel]
    exact getElem?_splitLines hapart

end Text

namespace Token

open Text

/-!
## Places of tokens
-/

/-- Every token, the end of the text included, begins between two characters of the text. -/
theorem tokensOf_front {text : String} {stream : TokenStream} (h : tokensOf text = .ok stream)
    {t : Token} (ht : t ∈ stream.toList) :
    exists front rest, text.toList = front ++ rest ∧ Apart front rest ∧
      t.place = Place.start.after front := by
  have hstart : (Lexer.ofText text).At [] := ⟨rfl, apart_nil _⟩
  rcases tokensOf_ok_iff.mp h with ⟨m, hpasses, hend, hstop⟩
  rcases List.mem_append.mp ht with ht | ht
  · rcases List.append_of_mem ht with ⟨ts, us, hbody⟩
    rw [hbody] at hpasses
    rcases hpasses.split with ⟨k, hbefore, hbehind⟩
    rcases hbehind.uncons with ⟨n, kind, c, cs, rest, hskip, hrest, hitem, heq, hmore⟩
    rcases hstart.passes (hbefore.trans hskip) with ⟨front, hfront, hat, _⟩
    exact ⟨front, n.rest, hfront, hat.apart, heq ▸ hat.place⟩
  · rcases hstart.passes hpasses with ⟨front, hfront, hat, _⟩
    refine ⟨front, m.rest, hfront, hat.apart, ?_⟩
    rw [List.mem_singleton.mp ht, hstop]
    exact hat.place

/-- Every token stands in the line and at the column that its place tells. -/
theorem tokensOf_leadsTo {text : String} {stream : TokenStream} (h : tokensOf text = .ok stream)
    {t : Token} (ht : t ∈ stream.toList) :
    exists before behind, LeadsTo text.toList t.place.line t.place.column before behind := by
  rcases tokensOf_front h ht with ⟨front, rest, hsplit, hapart, hplace⟩
  refine ⟨lastLine front, firstLine rest, ?_⟩
  rw [hsplit, hplace]
  exact leadsTo_after_start hapart

end Token
end ScriptHints
