import ScriptHints.Token.Word

/-!
# Regular expression literals

A literal runs from a slash to the next slash that stands neither in a class between
brackets nor behind a backslash, and takes the word characters behind it as flags. The
pattern keeps its backslashes. A literal that meets a line terminator or the end of the
text first has no pattern.
-/

namespace ScriptHints
namespace Token

open Text

/-- The inside of a literal with its closing slash. -/
def patternTail (inClass : Bool) : List Char → Reading (Option (List Char))
  | [] => ⟨none, [], []⟩
  | c :: text =>
      if isLineTerminator c then
        ⟨none, [], c :: text⟩
      else if c = '/' && !inClass then
        ⟨some [], [c], text⟩
      else if c = '\\' then
        match text with
        | [] => ⟨none, [c], []⟩
        | e :: more =>
            if isLineTerminator e then
              ⟨none, [c], e :: more⟩
            else
              ((patternTail inClass more).map (·.map ([c, e] ++ ·))).extend [c, e]
      else
        let inClass := if c = '[' then true else if c = ']' then false else inClass
        ((patternTail inClass text).map (·.map (c :: ·))).extend [c]

/-- Pattern and flags of a literal, from behind the opening slash on. -/
def regExpTail (text : List Char) : Reading (Option (List Char × List Char)) :=
  let pattern := patternTail false text
  match pattern.value with
  | none => ⟨none, pattern.taken, pattern.rest⟩
  | some p =>
      let flags := wordTail pattern.rest
      ⟨some (p, flags.taken), pattern.taken ++ flags.taken, flags.rest⟩

theorem splits_patternTail (inClass : Bool) (text : List Char) :
    (patternTail inClass text).Splits text := by
  fun_induction patternTail inClass text with
  | case1 => rfl
  | case2 => rfl
  | case3 => rfl
  | case4 => rfl
  | case5 => rfl
  | case6 inClass e more _ _ _ ih => exact (ih.map _).extend ['\\', e]
  | case7 inClass c text _ _ _ inClass' ih => exact (ih.map _).extend [c]

theorem splits_regExpTail (text : List Char) : (regExpTail text).Splits text := by
  have pattern := splits_patternTail false text
  have flags := splits_wordTail (patternTail false text).rest
  unfold Reading.Splits at *
  unfold regExpTail
  dsimp only
  split
  · exact pattern
  · simp [flags, pattern]

end Token
end ScriptHints
