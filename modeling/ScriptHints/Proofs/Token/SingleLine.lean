import ScriptHints.Proofs.Token.Numerals
import ScriptHints.Proofs.Token.Words

/-!
# Tokens on one line

A string may go on in the next line behind a backslash. No other token has a line end in it,
and a regular expression is spelled by its pattern and its flags as they are.
-/

namespace ScriptHints
namespace Token

open Text

def Inline (text : List Char) : Prop :=
  forall c, c ∈ text -> isLineTerminator c = false

theorem inline_nil : Inline [] :=
  nofun

@[simp] theorem inline_cons {c : Char} {text : List Char} :
    Inline (c :: text) ↔ isLineTerminator c = false ∧ Inline text := by
  simp [Inline]

@[simp] theorem inline_append {front text : List Char} :
    Inline (front ++ text) ↔ Inline front ∧ Inline text := by
  simp [Inline, or_imp, forall_and]

theorem plain_of_isLineTerminator {c : Char} (h : isLineTerminator c = true) :
    isWordPart c = false ∧ c.isDigit = false ∧ isHexDigit c = false := by
  simp only [isLineTerminator, Bool.or_eq_true, decide_eq_true_eq] at h
  rcases h with ((rfl | rfl) | rfl) | rfl <;> decide +kernel

theorem inline_of_all {p : Char → Bool} (hp : forall c, isLineTerminator c = true -> p c = false)
    {text : List Char} (h : text.all p = true) : Inline text := by
  intro c hc
  have hpart := List.all_eq_true.mp h c hc
  cases hterminator : isLineTerminator c with
  | false => rfl
  | true =>
      rw [hp c hterminator] at hpart
      cases hpart

theorem inline_of_isWordPart {text : List Char} (h : text.all isWordPart = true) : Inline text :=
  inline_of_all (fun _ hc => (plain_of_isLineTerminator hc).1) h

theorem inline_of_isDigit {text : List Char} (h : text.all Char.isDigit = true) : Inline text :=
  inline_of_all (fun _ hc => (plain_of_isLineTerminator hc).2.1) h

theorem inline_of_isHexDigit {text : List Char} (h : text.all isHexDigit = true) : Inline text :=
  inline_of_all (fun _ hc => (plain_of_isLineTerminator hc).2.2) h

theorem IsWord.inline {text : List Char} (h : IsWord text) : Inline text :=
  inline_of_isWordPart h.2

/-!
## Numbers
-/

theorem Fraction.inline {text : List Char} (h : Fraction text) : Inline text := by
  cases h with
  | none => exact inline_nil
  | point hdigits => exact inline_cons.mpr ⟨by decide, inline_of_isDigit hdigits⟩

theorem Exponent.inline {text : List Char} (h : Exponent text) : Inline text := by
  cases h with
  | none => exact inline_nil
  | @mark mark sign digits hmark hsign _ hdigits =>
      have hsign : Inline sign := by
        rcases hsign with rfl | rfl | rfl <;> simp [inline_nil, isLineTerminator]
      have hmark : Inline [mark] := by
        refine inline_of_isWordPart ?_
        rw [List.all_cons, isWordPart, (isExponentMark_plain hmark).2.2]
        rfl
      exact inline_append.mpr ⟨hmark, inline_append.mpr ⟨hsign, inline_of_isDigit hdigits⟩⟩

theorem DecimalNumeral.inline {text : List Char} (h : DecimalNumeral text) : Inline text := by
  cases h with
  | mk hwhole hfraction hexponent _ =>
      exact inline_append.mpr ⟨inline_of_isDigit hwhole,
        inline_append.mpr ⟨hfraction.inline, hexponent.inline⟩⟩

theorem inline_hexLiteralTail (text : List Char) : Inline (hexLiteralTail text).taken :=
  inline_of_isHexDigit List.all_takeWhile

theorem inline_numericLiteral {c : Char} {text : List Char} (h : startsNumber c text = true) :
    Inline (numericLiteral (c :: text)).taken := by
  have hdecimal := (decimalNumeral_decimalLiteral h).inline
  unfold numericLiteral
  split
  next more _ =>
    exact inline_append.mpr ⟨by simp [inline_nil, isLineTerminator], inline_hexLiteralTail more⟩
  next more _ =>
    exact inline_append.mpr ⟨by simp [inline_nil, isLineTerminator], inline_hexLiteralTail more⟩
  next => exact hdecimal

/-!
## Regular expressions
-/

theorem patternTail_spelled {inClass : Bool} {text pattern : List Char}
    (h : (patternTail inClass text).value = some pattern) :
    (patternTail inClass text).taken = pattern ++ ['/'] ∧ Inline pattern := by
  fun_induction patternTail inClass text generalizing pattern with
  | case1 => cases h
  | case2 => cases h
  | case3 inClass c text hline hslash =>
      simp only [Bool.and_eq_true, decide_eq_true_eq] at hslash
      cases h
      exact ⟨congrArg (fun c => [c]) hslash.1, inline_nil⟩
  | case4 => cases h
  | case5 => cases h
  | case6 inClass e more hnext =>
      rename_i ih
      rcases Option.map_eq_some_iff.mp h with ⟨inside, hinside, rfl⟩
      rcases ih hinside with ⟨htaken, hinline⟩
      refine ⟨congrArg (['\\', e] ++ ·) htaken, ?_⟩
      exact inline_cons.mpr ⟨by decide, inline_cons.mpr ⟨Bool.eq_false_iff.mpr hnext, hinline⟩⟩
  | case7 inClass c text hline =>
      rename_i ih
      rcases Option.map_eq_some_iff.mp h with ⟨inside, hinside, rfl⟩
      rcases ih hinside with ⟨htaken, hinline⟩
      exact ⟨congrArg (c :: ·) htaken, inline_cons.mpr ⟨Bool.eq_false_iff.mpr hline, hinline⟩⟩

theorem regExpItem_spelled {text : List Char} {pattern flags : String}
    (h : (regExpItem text).value = .token (.regExp pattern flags)) :
    (regExpItem text).taken = '/' :: pattern.toList ++ '/' :: flags.toList ∧
      Inline pattern.toList ∧ Inline flags.toList := by
  cases hpattern : (patternTail false text).value with
  | none => simp [regExpItem, regExpTail, Reading.extend, Reading.map, hpattern] at h
  | some inside =>
      rcases patternTail_spelled hpattern with ⟨htaken, hinline⟩
      simp only [regExpItem, regExpTail, Reading.extend, Reading.map, hpattern] at h ⊢
      cases h
      rw [String.toList_ofList, String.toList_ofList, htaken]
      refine ⟨by simp, hinline, ?_⟩
      exact inline_of_isWordPart List.all_takeWhile

/-!
## Tokens of a text
-/

variable {text : String} {stream : TokenStream} (h : tokensOf text = .ok stream) {t : Token}
  (ht : t ∈ stream.body.toList)
include h ht

theorem tokensOf_number_inline {value : Number.Binary64} (hkind : t.kind = .number value) :
    Inline t.lexeme.toList := by
  rcases tokensOf_ok_iff.mp h with ⟨m, hpasses, _, _⟩
  rcases hpasses.exists_item ht with ⟨afterOperand, c, cs, rest, heq, hlexeme⟩
  rw [hkind] at heq
  have hscanned := item_scanned
    (show (item afterOperand c (cs ++ rest)).value = .token (.number value) by rw [heq])
  rw [heq] at hscanned
  generalize hread : (⟨.token (.number value), c :: cs, rest⟩ : Reading Item) = read at hscanned
  cases hscanned with
  | word _ hword => cases hword
  | number _ hstart =>
      rw [hlexeme, show c :: cs = _ from congrArg Reading.taken hread]
      exact inline_numericLiteral hstart

theorem tokensOf_regExp {pattern flags : String} (hkind : t.kind = .regExp pattern flags) :
    t.lexeme.toList = '/' :: pattern.toList ++ '/' :: flags.toList ∧
      Inline pattern.toList ∧ Inline flags.toList := by
  rcases tokensOf_ok_iff.mp h with ⟨m, hpasses, _, _⟩
  rcases hpasses.exists_item ht with ⟨afterOperand, c, cs, rest, heq, hlexeme⟩
  rw [hkind] at heq
  have hscanned := item_scanned
    (show (item afterOperand c (cs ++ rest)).value = .token (.regExp pattern flags) by rw [heq])
  rw [heq] at hscanned
  generalize hread : (⟨.token (.regExp pattern flags), c :: cs, rest⟩ : Reading Item) = read
    at hscanned
  cases hscanned with
  | word _ hword => cases hword
  | regExp =>
      have hspelled := regExpItem_spelled (congrArg Reading.value hread).symm
      rw [hlexeme, show c :: cs = _ from congrArg Reading.taken hread]
      exact hspelled

end Token
end ScriptHints
