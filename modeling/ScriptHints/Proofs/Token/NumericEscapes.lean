import ScriptHints.Proofs.Json.Spelling
import ScriptHints.Proofs.Token.Literals

/-!
# Numeric escapes

A character of the basic plane has a number of four hexadecimal digits, and is read back from the
escape with that number. A character outside of it has two numbers, those of two surrogates. Each
escape is read on its own, and a surrogate is no character, so that its escape stands for its
letter and its digits.
-/

namespace ScriptHints
namespace Text

def utf16Units (c : Char) : List Nat :=
  if c.toNat < 0x10000 then [c.toNat]
  else [0xD800 + (c.toNat - 0x10000) / 0x400, 0xDC00 + (c.toNat - 0x10000) % 0x400]

theorem utf16Units_of_basic {c : Char} (h : c.toNat < 0x10000) : utf16Units c = [c.toNat] :=
  if_pos h

/-- A character outside of the basic plane is that of its two surrogates. -/
theorem utf16Units_of_not_basic {c : Char} (h : ¬ c.toNat < 0x10000) :
    exists lead trail, utf16Units c = [lead, trail] ∧ isLeadSurrogate lead = true ∧
      isTrailSurrogate trail = true ∧ c.toNat = ofSurrogates lead trail := by
  have hlimit : c.toNat < 0x110000 := by
    rcases c.valid with hlow | hhigh
    · exact Nat.lt_trans hlow (by decide)
    · exact hhigh.2
  refine ⟨_, _, if_neg h, ?_, ?_, ?_⟩
  · simp only [isLeadSurrogate, Bool.and_eq_true, decide_eq_true_eq]
    omega
  · simp only [isTrailSurrogate, Bool.and_eq_true, decide_eq_true_eq]
    omega
  · unfold ofSurrogates
    omega

theorem charOfCode?_of_lead {n : Nat} (h : isLeadSurrogate n = true) : charOfCode? n = none := by
  simp only [isLeadSurrogate, Bool.and_eq_true, decide_eq_true_eq] at h
  exact if_neg (by unfold Nat.isValidChar; omega)

theorem charOfCode?_of_trail {n : Nat} (h : isTrailSurrogate n = true) : charOfCode? n = none := by
  simp only [isTrailSurrogate, Bool.and_eq_true, decide_eq_true_eq] at h
  exact if_neg (by unfold Nat.isValidChar; omega)

theorem plain_of_isHexDigit {c : Char} (h : isHexDigit c = true) :
    c ≠ '"' ∧ c ≠ '\'' ∧ c ≠ '\\' ∧ isLineTerminator c = false := by
  have hother (d : Char) (hd : isHexDigit d = false) : c ≠ d := by
    rintro rfl
    rw [hd] at h
    cases h
  refine ⟨hother _ rfl, hother _ rfl, hother _ rfl, ?_⟩
  simp only [isLineTerminator, Bool.or_eq_false_iff, decide_eq_false_iff_not]
  exact ⟨⟨⟨hother _ rfl, hother _ rfl⟩, hother _ rfl⟩, hother _ rfl⟩

end Text

namespace Token

open Number Text

def numericEscape (digits : List Char) : List Char :=
  '\\' :: 'u' :: digits

def escapedValue (digits : List Char) : List Char :=
  match charOfCode? (ofDigits 16 digits) with
  | some c => [c]
  | none => 'u' :: digits

theorem escapedValue_of_some {digits : List Char} {c : Char}
    (h : charOfCode? (ofDigits 16 digits) = some c) : escapedValue digits = [c] := by
  rw [escapedValue, h]

theorem escapedValue_of_char {digits : List Char} {c : Char} (h : Json.Digits digits c.toNat) :
    escapedValue digits = [c] := by
  refine escapedValue_of_some ?_
  rw [h.value]
  exact charOfCode?_toNat c

theorem escapedValue_of_none {digits : List Char} (h : charOfCode? (ofDigits 16 digits) = none) :
    escapedValue digits = 'u' :: digits := by
  rw [escapedValue, h]

def literal (quote : Char) (inside : List Char) : String :=
  String.ofList (quote :: inside ++ [quote])

/-!
## Reading escapes
-/

theorem hexChar?_eq {digits : List Char} {code : Nat} (h : Json.Digits digits code) :
    hexChar? 4 digits = charOfCode? (ofDigits 16 digits) := by
  unfold hexChar?
  rw [if_pos]
  rw [Bool.and_eq_true, decide_eq_true_eq]
  exact ⟨h.length, h.hexadecimal⟩

section

variable {quote : Char} (hquote : quote = '"' ∨ quote = '\'') {rest text value : List Char}
include hquote

theorem StringItems.digits (h : StringItems quote rest text value) {digits : List Char}
    (hdigits : digits.all isHexDigit = true) :
    StringItems quote rest (digits ++ text) (digits ++ value) := by
  induction digits with
  | nil => exact h
  | cons c digits ih =>
      rw [List.all_cons, Bool.and_eq_true] at hdigits
      rcases plain_of_isHexDigit hdigits.1 with ⟨hdouble, hsingle, hslash, hline⟩
      refine .plain ?_ hslash hline (ih hdigits.2)
      rcases hquote with rfl | rfl
      · exact hdouble
      · exact hsingle

theorem StringItems.numericEscape (h : StringItems quote rest text value) {digits : List Char}
    {code : Nat} (hdigits : Json.Digits digits code) :
    StringItems quote rest (numericEscape digits ++ text) (escapedValue digits ++ value) := by
  cases hchar : charOfCode? (ofDigits 16 digits) with
  | some c =>
      rw [escapedValue_of_some hchar]
      exact .escaped (.digits (by decide) ((hexChar?_eq hdigits).trans hchar)) h
  | none =>
      rw [escapedValue_of_none hchar]
      have hfront : (digits ++ text ++ rest).take 4 = digits := by
        rw [List.append_assoc]
        exact List.take_left' hdigits.length
      have hletter : Escaped (digits ++ text ++ rest) ['u'] ['u'] :=
        .noDigits (by decide)
          ((congrArg (hexChar? 4) hfront).trans ((hexChar?_eq hdigits).trans hchar))
      have hwhole : StringItems quote rest ('\\' :: ['u'] ++ (digits ++ text))
          (['u'] ++ (digits ++ value)) :=
        .escaped hletter (h.digits hquote hdigits.hexadecimal)
      exact hwhole

theorem stringItems_numericEscapes {units : List (List Char)} {codes : List Nat}
    (h : List.Forall₂ Json.Digits units codes) :
    StringItems quote rest (units.flatMap Token.numericEscape) (units.flatMap escapedValue) := by
  induction h with
  | nil => exact .nil
  | cons hdigits _ ih => exact ih.numericEscape hquote hdigits

/-- A literal that is made of items is one string token with their value. -/
theorem tokensOf_literal (h : StringItems quote [quote] text value) :
    tokensOf (literal quote text) =
      .ok
        { body := #[⟨.string (String.ofList value), literal quote text, Place.start, false⟩]
          stop := ⟨.endOfText, "", Place.start.after (literal quote text).toList, false⟩ } := by
  have hbackslash : '\\' ≠ quote := by
    rcases hquote with rfl | rfl <;> decide
  have htext : (Lexer.ofText (literal quote text)).rest = quote :: (text ++ [quote]) := by
    simp [Lexer.ofText, literal]
  have hitem : item (Lexer.ofText (literal quote text)).afterOperand quote (text ++ [quote]) =
      ⟨.token (.string (String.ofList value)), (literal quote text).toList, []⟩ := by
    rw [item_of_quote hquote]
    unfold stringItem
    rw [h.stringTail_eq hbackslash, stringTail_quote]
    simp [Reading.extend, Reading.map, literal]
  show Except.map _ (Lexer.ofText (literal quote text)).run.1 = _
  rw [Lexer.run_of_token htext (by rw [hitem]), hitem, Lexer.run_of_nil rfl]
  simp [Except.map, Lexer.after, Lexer.tokenHere, Lexer.ofText]

end

/-!
## Characters spelled by their numbers
-/

/-- Outside of the basic plane two escapes stand for ten characters and not for one. -/
theorem length_escapedValues {units : List (List Char)} {text : List Char}
    (h : List.Forall₂ Json.Digits units (text.flatMap utf16Units)) :
    (units.flatMap escapedValue).length =
      text.length + 9 * text.countP fun c => !decide (c.toNat < 0x10000) := by
  induction text generalizing units with
  | nil =>
      rw [List.forall₂_nil_right_iff.mp h]
      rfl
  | cons c text ih =>
      rw [List.flatMap_cons] at h
      by_cases hbasic : c.toNat < 0x10000
      · rw [utf16Units_of_basic hbasic, List.singleton_append] at h
        rcases List.forall₂_cons_right_iff.mp h with ⟨digits, units, hcode, hmore, rfl⟩
        rw [List.flatMap_cons, List.length_append, ih hmore, escapedValue_of_char hcode,
          List.countP_cons_of_neg (by simp [hbasic]), List.length_singleton, List.length_cons]
        omega
      · rcases utf16Units_of_not_basic hbasic with ⟨lead, trail, hpair, hlead, htrail, _⟩
        rw [hpair, List.cons_append, List.singleton_append] at h
        rcases List.forall₂_cons_right_iff.mp h with ⟨digits, _, hcode, hpair, rfl⟩
        rcases List.forall₂_cons_right_iff.mp hpair with ⟨digits', units, hcode', hmore, rfl⟩
        rw [← hcode.value] at hlead
        rw [← hcode'.value] at htrail
        rw [List.flatMap_cons, List.flatMap_cons, List.length_append, List.length_append, ih hmore,
          escapedValue_of_none (charOfCode?_of_lead hlead),
          escapedValue_of_none (charOfCode?_of_trail htrail),
          List.countP_cons_of_pos (by simp [hbasic]), List.length_cons, List.length_cons,
          List.length_cons, hcode.length, hcode'.length]
        omega

theorem escapedValues_of_basic {units : List (List Char)} {text : List Char}
    (h : List.Forall₂ Json.Digits units (text.flatMap utf16Units))
    (hbasic : forall c, c ∈ text -> c.toNat < 0x10000) : units.flatMap escapedValue = text := by
  induction text generalizing units with
  | nil =>
      rw [List.forall₂_nil_right_iff.mp h]
      rfl
  | cons c text ih =>
      rw [List.flatMap_cons, utf16Units_of_basic (hbasic c List.mem_cons_self),
        List.singleton_append] at h
      rcases List.forall₂_cons_right_iff.mp h with ⟨digits, units, hcode, hmore, rfl⟩
      rw [List.flatMap_cons, escapedValue_of_char hcode,
        ih hmore fun d hd => hbasic d (List.mem_cons_of_mem _ hd), List.singleton_append]

/-- A text spelled by the escapes of its numbers is one string token. Its value is the text again
just where all characters are in the basic plane. -/
theorem tokensOf_numericEscapes {quote : Char} (hquote : quote = '"' ∨ quote = '\'')
    {text : String} {units : List (List Char)}
    (h : List.Forall₂ Json.Digits units (text.toList.flatMap utf16Units)) :
    exists value stop,
      tokensOf (literal quote (units.flatMap numericEscape)) =
        .ok ⟨#[⟨.string value, literal quote (units.flatMap numericEscape), Place.start, false⟩],
          stop⟩ ∧
      stop.kind = .endOfText ∧
      (value = text ↔ forall c, c ∈ text.toList -> c.toNat < 0x10000) := by
  refine ⟨_, _, tokensOf_literal hquote (stringItems_numericEscapes hquote h), rfl, ?_⟩
  rw [← String.toList_inj, String.toList_ofList]
  constructor
  · intro hsame
    have hlength := length_escapedValues h
    rw [hsame] at hlength
    have hnone : (text.toList.countP fun c => !decide (c.toNat < 0x10000)) = 0 := by omega
    intro c hc
    simpa using List.countP_eq_zero.mp hnone c hc
  · exact escapedValues_of_basic h

theorem tokensOf_numericEscapes_surrogates :
    exists value stop,
      tokensOf (literal '"' (["D83D".toList, "DE00".toList].flatMap numericEscape)) =
        .ok ⟨#[⟨.string value,
            literal '"' (["D83D".toList, "DE00".toList].flatMap numericEscape),
            Place.start, false⟩],
          stop⟩ ∧
      stop.kind = .endOfText ∧
      (value = "😀" ↔ forall c, c ∈ "😀".toList -> c.toNat < 0x10000) :=
  tokensOf_numericEscapes (.inl rfl)
    (.cons ⟨by decide, by decide, by decide⟩ (.cons ⟨by decide, by decide, by decide⟩ .nil))

/-- The escapes of two surrogates are not read as one character. -/
example : (tokensOf "'\\uD83D\\uDE00'").toOption.map (fun stream => stream.toList.map (·.kind)) =
    some [.string "uD83DuDE00", .endOfText] := by
  cbv


end Token
end ScriptHints
