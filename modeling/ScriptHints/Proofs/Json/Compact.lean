import ScriptHints.Json.Printer
import ScriptHints.Proofs.Json.Spelling

/-!
# Compact JSON

A writer that puts no blanks between the tokens, and that escapes only the characters that need
it. What it writes is one of the spellings of its objects.
-/

namespace ScriptHints
namespace Json

open Text

def compactItems (closing : Char) : Bool → List (List Char) → List Char
  | _, [] => [closing]
  | first, item :: items =>
      (if first then [] else [',']) ++ (item ++ compactItems closing false items)

def compactMember (member : String × String) : List Char :=
  (quoted member.1).toList ++ (':' :: (quoted member.2).toList)

def compactObject (members : List (String × String)) : List Char :=
  '{' :: compactItems '}' true (members.map compactMember)

def compactDocument (objects : List (List (String × String))) : List Char :=
  '[' :: compactItems ']' true (objects.map compactObject)

/-!
## Strings
-/

theorem digits_of_control {c : Char} (h : c < ' ') :
    Digits (List.replicate (4 - (hexadecimal c.toNat).length) '0' ++ hexadecimal c.toNat)
    c.toNat := by
  have hall : forall n, n < 32 ->
      (List.replicate (4 - (hexadecimal n).length) '0' ++ hexadecimal n).length = 4 ∧
        (List.replicate (4 - (hexadecimal n).length) '0' ++ hexadecimal n).all isHexDigit = true ∧
        Number.ofDigits 16 (List.replicate (4 - (hexadecimal n).length) '0' ++ hexadecimal n) =
        n := by
    decide +kernel
  rcases hall c.toNat h with ⟨hlength, hhex, hvalue⟩
  exact ⟨hlength, hhex, hvalue⟩

theorem spellsChar_escapeChar (c : Char) : SpellsChar c (escapeChar c) := by
  unfold escapeChar
  split
  case h_8 hquote hslash _ _ _ _ _ =>
    split
    next hcontrol => exact .code (digits_of_control hcontrol)
    next hcontrol => exact .plain hcontrol hquote hslash
  all_goals exact .letter (by decide)

theorem spellsChars_escapeChar (chars : List Char) :
    SpellsChars chars (chars.flatMap escapeChar) := by
  induction chars with
  | nil => exact .nil
  | cons c chars ih => exact .cons (spellsChar_escapeChar c) ih

theorem marked_self (c : Char) : Marked c [c] :=
  ⟨[], blanks_nil, rfl⟩

theorem spellsText_quoted (text : String) : SpellsText text (quoted text).toList := by
  refine ⟨['"'], text.toList.flatMap escapeChar, marked_self '"', spellsChars_escapeChar _, ?_⟩
  unfold quoted
  rw [String.toList_ofList]
  rfl

/-!
## Objects
-/

theorem separated_compact (first : Bool) : Separated first (if first then [] else [',']) := by
  cases first with
  | true => exact rfl
  | false => exact marked_self ','

theorem spellsMembers_compact (first : Bool) (members : List (String × String)) :
    SpellsMembers first members (compactItems '}' first (members.map compactMember)) := by
  induction members generalizing first with
  | nil => exact .nil (marked_self '}')
  | cons member members ih =>
      have hform (text : List Char) : compactMember member ++ text =
          (quoted member.1).toList ++ ([':'] ++ ((quoted member.2).toList ++ text)) := by
        rw [compactMember, List.append_assoc]
        rfl
      rw [List.map_cons, compactItems, hform]
      exact .cons (separated_compact first) (spellsText_quoted member.1) (marked_self ':')
        (spellsText_quoted member.2) (ih false)

theorem spellsObjects_compact (first : Bool) (objects : List (List (String × String))) :
    SpellsObjects first objects (compactItems ']' first (objects.map compactObject)) := by
  induction objects generalizing first with
  | nil => exact .nil (marked_self ']')
  | cons members objects ih =>
      exact .cons (separated_compact first) (marked_self '{') (spellsMembers_compact true members)
        (ih false)

theorem spellsDocument_compact (objects : List (List (String × String))) :
    SpellsDocument objects (compactDocument objects) := by
  refine ⟨['['], _, [], marked_self '[', spellsObjects_compact true objects, blanks_nil, ?_⟩
  rw [List.append_nil]
  rfl

end Json
end ScriptHints
