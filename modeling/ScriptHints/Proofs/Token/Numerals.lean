import ScriptHints.Proofs.Token.Literals

/-!
# Numerals

A number is the longest numeral at the front of the text. Numerals are hexadecimal, or decimal
with a fraction and an exponent that may be missing. No word begins right behind a decimal one, and
the digits of a hexadecimal one spell a number of at most 64 bits.
-/

namespace ScriptHints
namespace Token

open Number Text

inductive HexNumeral (digits : List Char) : List Char → Prop where
  | mk {mark : Char} :
      mark = 'x' ∨ mark = 'X' -> digits ≠ [] -> digits.all isHexDigit = true ->
      HexNumeral digits ('0' :: mark :: digits)

inductive Fraction : List Char → Prop where
  | none : Fraction []
  | point {digits : List Char} :
      digits.all Char.isDigit = true -> Fraction ('.' :: digits)

inductive Exponent : List Char → Prop where
  | none : Exponent []
  | mark {mark : Char} {sign digits : List Char} :
      isExponentMark mark = true -> sign = [] ∨ sign = ['+'] ∨ sign = ['-'] -> digits ≠ [] ->
      digits.all Char.isDigit = true -> Exponent (mark :: (sign ++ digits))

inductive DecimalNumeral : List Char → Prop where
  | mk {whole fraction exponent : List Char} :
      whole.all Char.isDigit = true -> Fraction fraction -> Exponent exponent ->
      (whole ++ fraction).any Char.isDigit = true ->
      DecimalNumeral (whole ++ (fraction ++ exponent))

def Numeral (text : List Char) : Prop :=
  (exists digits, HexNumeral digits text) ∨ DecimalNumeral text

/-- A piece at the front of a text that has a property, while no longer one has. -/
structure LongestFront (p : List Char → Prop) (front text : List Char) : Prop where
  holds : p front
  isFront : front <+: text
  longest (other : List Char) : p other -> other <+: text -> other.length ≤ front.length

def EndsNumeral (rest : List Char) : Prop :=
  forall c, rest.head? = some c -> isWordStart c = false ∧ c.isDigit = false

def Accepted (numeral rest : List Char) : Prop :=
  EndsNumeral rest ∧
    forall digits, HexNumeral digits numeral -> ofDigits 16 digits < Nat.pow 2 64

/-!
## Parts of decimal numerals
-/

theorem run_extend {q : Char → Bool} {front : List Char} (hfront : front.all q = true)
    (rest : List Char) :
    Reading.run q (front ++ rest) = (Reading.run q rest).extend front := by
  unfold Reading.run Reading.extend
  rw [List.takeWhile_append_of_pos (List.all_eq_true.mp hfront),
    List.dropWhile_append_of_pos (List.all_eq_true.mp hfront)]

theorem run_of_head {q : Char → Bool} {text : List Char}
    (h : forall c, text.head? = some c -> q c = false) : Reading.run q text = ⟨(), [], text⟩ := by
  have hnone : forall c, c ∈ ([] : List Char) -> q c = true := nofun
  exact run_append q hnone h

theorem Fraction.head {text : List Char} (h : Fraction text) {c : Char}
    (hc : text.head? = some c) : c = '.' := by
  cases h with
  | none => cases hc
  | point _ => exact (Option.some.inj hc).symm

theorem Exponent.head {text : List Char} (h : Exponent text) {c : Char}
    (hc : text.head? = some c) : c.isDigit = false ∧ c ≠ '.' := by
  cases h with
  | none => cases hc
  | mark hmark _ _ _ =>
      rw [← Option.some.inj hc]
      have hplain := isExponentMark_plain hmark
      exact ⟨hplain.1, hplain.2.1⟩

theorem fraction_fractionPart (text : List Char) : Fraction (fractionPart text).taken := by
  unfold fractionPart
  split
  next more => exact .point (List.all_takeWhile)
  next => exact .none

theorem exponent_exponentPart (text : List Char) : Exponent (exponentPart text).taken := by
  cases text with
  | nil => exact .none
  | cons mark more =>
      simp only [exponentPart]
      split
      next h =>
        rw [Bool.and_eq_true, Bool.not_eq_true', List.isEmpty_eq_false_iff] at h
        refine .mark h.1 ?_ h.2 List.all_takeWhile
        rcases signPart_cases more with ⟨_, rfl⟩ | ⟨_, rfl⟩ | hnone
        · exact .inr (.inl rfl)
        · exact .inr (.inr rfl)
        · rw [hnone]
          exact .inl rfl
      next => exact .none

theorem signPart_append {sign digits : List Char} (hsign : sign = [] ∨ sign = ['+'] ∨ sign = ['-'])
    (hsome : digits ≠ []) (hdigits : digits.all Char.isDigit = true) (rest : List Char) :
    (signPart (sign ++ (digits ++ rest))).taken = sign ∧
      (signPart (sign ++ (digits ++ rest))).rest = digits ++ rest := by
  have hsame := signPart_before sign rest (List.all_eq_true.mp hdigits) hsome
  rcases hsign with rfl | rfl | rfl <;>
    exact ⟨congrArg Reading.taken hsame, congrArg Reading.rest hsame⟩

theorem length_le_exponentPart {exponent : List Char} (h : Exponent exponent) (rest : List Char) :
    exponent.length ≤ (exponentPart (exponent ++ rest)).taken.length := by
  cases h with
  | none => exact Nat.zero_le _
  | @mark mark sign digits hmark hsign hsome hdigits =>
      rcases signPart_append hsign hsome hdigits rest with ⟨htaken, hrest⟩
      have hmark : (decide (mark = 'e') || decide (mark = 'E')) = true := hmark
      have hempty : (digits ++ (Reading.run Char.isDigit rest).taken).isEmpty = false := by
        cases digits with
        | nil => exact absurd rfl hsome
        | cons => rfl
      rw [List.cons_append, List.append_assoc]
      simp only [exponentPart, hrest, htaken, run_extend hdigits, Reading.extend, hmark, hempty,
        Bool.not_false, Bool.and_self, if_true, List.length_cons, List.length_append]
      omega

theorem length_le_fractionPart {fraction exponent : List Char} (hfraction : Fraction fraction)
    (hexponent : Exponent exponent) (rest : List Char) :
    fraction.length + exponent.length ≤
      (fractionPart (fraction ++ (exponent ++ rest))).taken.length +
        (exponentPart (fractionPart (fraction ++ (exponent ++ rest))).rest).taken.length := by
  have hleast := length_le_exponentPart hexponent rest
  cases hfraction with
  | none =>
      rw [List.nil_append]
      by_cases hpoint : (exponent ++ rest).head? = some '.'
      · rcases head_append_cases hpoint with hhead | ⟨hnone, _⟩
        · exact absurd rfl (hexponent.head hhead).2
        · rw [hnone]
          exact Nat.zero_le _
      · rw [fractionPart_of_head hpoint]
        simpa using hleast
  | @point digits hdigits =>
      simp only [List.cons_append, fractionPart, run_extend hdigits, Reading.extend, Reading.map,
        List.length_cons, List.length_append, List.nil_append]
      by_cases hnone : exponent = []
      · rw [hnone]
        simp only [List.length_nil]
        omega
      · rw [run_of_head fun c hc => ?_]
        · simp only [List.length_nil]
          omega
        · rcases head_append_cases hc with hhead | ⟨hnone', _⟩
          · exact (hexponent.head hhead).1
          · exact absurd hnone' hnone

/-!
## Decimal numerals
-/

theorem length_le_decimalLiteral {numeral : List Char} (h : DecimalNumeral numeral)
    (rest : List Char) : numeral.length ≤ (decimalLiteral (numeral ++ rest)).taken.length := by
  cases h with
  | @mk whole fraction exponent hwhole hfraction hexponent _ =>
      have hleast := length_le_fractionPart hfraction hexponent rest
      rw [List.append_assoc, List.append_assoc]
      simp only [decimalLiteral, run_extend hwhole, Reading.extend, List.length_append]
      by_cases hnone : fraction ++ exponent = []
      · rcases List.append_eq_nil_iff.mp hnone with ⟨rfl, rfl⟩
        simp only [List.length_nil]
        omega
      · rw [run_of_head fun c hc => ?_]
        · simp only [List.length_nil]
          omega
        · rw [← List.append_assoc] at hc
          rcases head_append_cases hc with hhead | ⟨hnone', _⟩
          · rcases head_append_cases hhead with hpoint | ⟨_, hmark⟩
            · rw [hfraction.head hpoint]
              rfl
            · exact (hexponent.head hmark).1
          · exact absurd hnone' hnone

theorem decimalNumeral_decimalLiteral {c : Char} {text : List Char}
    (h : startsNumber c text = true) : DecimalNumeral (decimalLiteral (c :: text)).taken := by
  refine .mk List.all_takeWhile (fraction_fractionPart _) (exponent_exponentPart _) ?_
  by_cases hdigit : c.isDigit = true
  · rw [List.any_append, Reading.run, List.takeWhile_cons_of_pos hdigit, List.any_cons, hdigit]
    rfl
  · simp only [startsNumber, Bool.or_eq_true, Bool.and_eq_true, decide_eq_true_eq] at h
    rcases h with h | ⟨rfl, hsome⟩
    · exact absurd h hdigit
    · have hpoint : forall c, ('.' :: text).head? = some c -> c.isDigit = false := by
        rintro _ ⟨rfl⟩
        rfl
      rw [run_of_head hpoint]
      cases text with
      | nil => cases hsome
      | cons d text =>
          have hsome : d.isDigit = true := hsome
          simp [fractionPart, Reading.extend, Reading.map, Reading.run, hsome]

/-!
## The longest numeral
-/

section

variable {mark : Char} (hmark : mark = 'x' ∨ mark = 'X') (more : List Char)
include hmark

theorem numericLiteral_of_mark :
    numericLiteral ('0' :: mark :: more) = (hexLiteralTail more).extend ['0', mark] := by
  rcases hmark with rfl | rfl <;> rfl

theorem numericLiteral_of_digits (hsome : (Reading.run isHexDigit more).taken ≠ []) :
    numericLiteral ('0' :: mark :: more) =
      ⟨if ofDigits 16 (Reading.run isHexDigit more).taken < Nat.pow 2 64 then
          some (Binary64.ofNat (ofDigits 16 (Reading.run isHexDigit more).taken)) else none,
        '0' :: mark :: (Reading.run isHexDigit more).taken,
        (Reading.run isHexDigit more).rest⟩ := by
  rw [numericLiteral_of_mark hmark, hexLiteralTail]
  simp [Reading.extend, Reading.map, hsome]

theorem hexMark_plain : mark.isDigit = false ∧ mark ≠ '.' ∧ isExponentMark mark = false ∧
    isWordStart mark = true := by
  rcases hmark with rfl | rfl <;> decide +kernel

theorem taken_decimalLiteral_of_mark : (decimalLiteral ('0' :: mark :: more)).taken = ['0'] := by
  rcases hexMark_plain hmark with ⟨hdigit, hpoint, hexponent, _⟩
  have hwhole : Reading.run Char.isDigit ('0' :: mark :: more) = ⟨(), ['0'], mark :: more⟩ := by
    rw [← List.singleton_append, run_extend rfl, run_of_head (by rintro _ ⟨rfl⟩; exact hdigit)]
    rfl
  simp only [decimalLiteral, hwhole]
  rw [fractionPart_of_head (by simpa using hpoint), exponentPart_of_head (by simpa using hexponent)]
  rfl

theorem length_le_of_mark {other : List Char} (h : Numeral other)
    (hfront : other <+: '0' :: mark :: more) :
    other.length ≤ 1 ∨ exists digits, HexNumeral digits other ∧
      other.length ≤ ('0' :: mark :: (Reading.run isHexDigit more).taken).length := by
  rcases hfront with ⟨rest, hwhole⟩
  rcases h with ⟨digits, hhex⟩ | hdecimal
  · refine .inr ⟨digits, hhex, ?_⟩
    cases hhex with
    | mk _ _ hdigits =>
        injection hwhole with _ hwhole
        injection hwhole with _ hwhole
        have hrun := run_extend hdigits rest
        rw [show digits ++ rest = more from hwhole] at hrun
        rw [hrun]
        simp only [Reading.extend, List.length_cons, List.length_append]
        omega
  · left
    have hleast := length_le_decimalLiteral hdecimal rest
    rw [hwhole, taken_decimalLiteral_of_mark hmark] at hleast
    exact hleast

end

theorem HexNumeral.digits_eq {digits digits' numeral : List Char} (h : HexNumeral digits numeral)
    (h' : HexNumeral digits' numeral) : digits = digits' := by
  cases h
  cases h'
  rfl

theorem HexNumeral.beginsHex {digits numeral : List Char} (h : HexNumeral digits numeral)
    (rest : List Char) : BeginsHex (numeral ++ rest) := by
  cases h with
  | @mk mark hmark _ _ => exact ⟨mark, digits ++ rest, rfl, hmark⟩

/-- What the scanner makes of the longest numeral at the front of a text. It is not said what it
makes of a hexadecimal one with a word right behind it. -/
structure ReadsNumeral (text numeral rest : List Char) : Prop where
  whole : text = numeral ++ rest
  longest : LongestFront Numeral numeral text
  accepted : ((exists digits, HexNumeral digits numeral) -> startsWord rest = false) ->
    Accepted numeral rest -> exists v, numericLiteral text = ⟨some v, numeral, rest⟩
  refused : ((exists digits, HexNumeral digits numeral) -> startsWord rest = false) ->
    ¬ Accepted numeral rest -> (numericLiteral text).value = none

theorem readsNumeral_of_digits {mark : Char} (hmark : mark = 'x' ∨ mark = 'X') {more : List Char}
    (hsome : (Reading.run isHexDigit more).taken ≠ []) :
    ReadsNumeral ('0' :: mark :: more) ('0' :: mark :: (Reading.run isHexDigit more).taken)
      (Reading.run isHexDigit more).rest := by
  have hsplits : (Reading.run isHexDigit more).taken ++ (Reading.run isHexDigit more).rest = more :=
    Reading.splits_run isHexDigit more
  have hhex : HexNumeral (Reading.run isHexDigit more).taken
      ('0' :: mark :: (Reading.run isHexDigit more).taken) := .mk hmark hsome List.all_takeWhile
  have hread := numericLiteral_of_digits hmark more hsome
  constructor
  · rw [List.cons_append, List.cons_append, hsplits]
  · refine ⟨.inl ⟨_, hhex⟩, ?_, fun other hother hfront => ?_⟩
    · refine ⟨(Reading.run isHexDigit more).rest, ?_⟩
      rw [List.cons_append, List.cons_append, hsplits]
    · rcases length_le_of_mark hmark more hother hfront with hone | ⟨_, _, hleast⟩
      · exact Nat.le_trans hone (Nat.succ_le_succ (Nat.zero_le _))
      · exact hleast
  · intro _ haccepted
    rw [hread, if_pos (haccepted.2 _ hhex)]
    exact ⟨_, rfl⟩
  · intro hword hrefused
    rw [hread]
    refine if_neg fun hfits => hrefused ⟨fun c hc => ⟨?_, ?_⟩, fun digits hdigits => ?_⟩
    · exact startsWord_eq_false_iff.mp (hword ⟨_, hhex⟩) c hc
    · have hdigit : isHexDigit c = false := head?_run_rest hc
      simp only [isHexDigit, Bool.or_eq_false_iff] at hdigit
      exact hdigit.1.1
    · rw [hdigits.digits_eq hhex]
      exact hfits

/-- Without digits behind the mark the numeral is the zero, and the mark is a word. -/
theorem readsNumeral_of_mark {mark : Char} (hmark : mark = 'x' ∨ mark = 'X') {more : List Char}
    (hnone : (Reading.run isHexDigit more).taken = []) :
    ReadsNumeral ('0' :: mark :: more) ['0'] (mark :: more) := by
  have hzero : DecimalNumeral (['0'] ++ ([] ++ [])) := .mk (by decide) .none .none (by decide)
  constructor
  · rfl
  · refine ⟨.inr hzero, ⟨_, rfl⟩, ?_⟩
    intro other hother hfront
    rcases length_le_of_mark hmark more hother hfront with hone | ⟨digits, hhex, hleast⟩
    · exact hone
    · cases hhex with
      | mk _ hsome _ =>
          rw [hnone] at hleast
          simp only [List.length_cons, List.length_nil] at hleast
          exact absurd (List.length_eq_zero_iff.mp (by omega)) hsome
  · intro _ haccepted
    have hword := (haccepted.1 mark rfl).1
    rw [(hexMark_plain hmark).2.2.2] at hword
    cases hword
  · intro _ _
    rw [numericLiteral_of_mark hmark, hexLiteralTail]
    simp [Reading.extend, Reading.map, hnone]

theorem readsNumeral_of_decimal {c : Char} {text : List Char} (h : startsNumber c text = true)
    (hhex : ¬ BeginsHex (c :: text)) :
    ReadsNumeral (c :: text) (decimalLiteral (c :: text)).taken
    (decimalLiteral (c :: text)).rest := by
  have hsplits : (decimalLiteral (c :: text)).taken ++ (decimalLiteral (c :: text)).rest =
    c :: text :=
    splits_decimalLiteral _
  have hread := numericLiteral_of_decimal hhex
  constructor
  · exact hsplits.symm
  · refine ⟨.inr (decimalNumeral_decimalLiteral h), ⟨_, hsplits⟩, ?_⟩
    rintro other (⟨digits, hdigits⟩ | hdecimal) ⟨rest, hwhole⟩
    · have hbegins := hdigits.beginsHex rest
      rw [hwhole] at hbegins
      exact absurd hbegins hhex
    · have hleast := length_le_decimalLiteral hdecimal rest
      rw [hwhole] at hleast
      exact hleast
  · intro _ haccepted
    have hword : startsWord (decimalLiteral (c :: text)).rest = false :=
      startsWord_eq_false_iff.mpr fun d hd => (haccepted.1 d hd).1
    rw [hread, Reading.map, if_neg (Bool.eq_false_iff.mp hword)]
    exact ⟨_, rfl⟩
  · intro _ hrefused
    rw [hread]
    refine if_pos ?_
    cases hword : startsWord (decimalLiteral (c :: text)).rest with
    | true => rfl
    | false =>
        refine absurd ⟨fun d hd => ⟨?_, ?_⟩, fun digits hdigits => ?_⟩ hrefused
        · exact startsWord_eq_false_iff.mp hword d hd
        · exact head_decimalLiteral_rest hd
        · have hbegins := hdigits.beginsHex (decimalLiteral (c :: text)).rest
          rw [hsplits] at hbegins
          exact absurd hbegins hhex

theorem exists_readsNumeral {c : Char} {text : List Char} (h : startsNumber c text = true) :
    exists numeral rest, ReadsNumeral (c :: text) numeral rest := by
  by_cases hhex : BeginsHex (c :: text)
  · rcases hhex with ⟨mark, more, hwhole, hmark⟩
    rw [hwhole]
    by_cases hnone : (Reading.run isHexDigit more).taken = []
    · exact ⟨_, _, readsNumeral_of_mark hmark hnone⟩
    · exact ⟨_, _, readsNumeral_of_digits hmark hnone⟩
  · exact ⟨_, _, readsNumeral_of_decimal h hhex⟩

/-!
## Numbers of texts
-/

section

variable {c : Char} {text numeral rest : List Char} (h : startsNumber c text = true)
include h

theorem item_of_value {v : Binary64} (hread : numericLiteral (c :: text) = ⟨some v, numeral, rest⟩)
    (afterOperand : Bool) : item afterOperand c text = ⟨.token (.number v), numeral, rest⟩ := by
  simp only [item_of_startsNumber h, numberItem, hread, Reading.map]

theorem value_item_of_none (hnone : (numericLiteral (c :: text)).value = none)
    (afterOperand : Bool) :
    exists lexeme, (item afterOperand c text).value = .fault (.invalidNumber lexeme) := by
  refine ⟨String.ofList (numericLiteral (c :: text)).taken, ?_⟩
  simp only [item_of_startsNumber h, numberItem, Reading.map, hnone]

end

/--
Where a number begins, the longest numeral is read as one token if nothing goes on right behind it
and, for a hexadecimal one, if its digits spell a number of 64 bits. Otherwise the text has no
tokens.
-/
theorem number_iff_accepted {text : String} {ts : List Token} {l : Lexer}
    (h : (Lexer.ofText text).Passes ts l) {c : Char} {more : List Char} (hrest : l.rest = c :: more)
    (hstart : startsNumber c more = true) :
    exists numeral rest, c :: more = numeral ++ rest ∧ LongestFront Numeral numeral (c :: more) ∧
      (((exists digits, HexNumeral digits numeral) -> startsWord rest = false) ->
        ((exists v, l.Passes [l.tokenHere (.number v) numeral]
            (l.after ⟨.token (.number v), numeral, rest⟩)) ↔ Accepted numeral rest) ∧
        (¬ Accepted numeral rest ->
          exists lexeme, tokensOf text = .error ⟨.invalidNumber lexeme, l.place⟩)) := by
  rcases exists_readsNumeral hstart with ⟨numeral, rest, hreads⟩
  refine ⟨numeral, rest, hreads.whole, hreads.longest, fun hword => ⟨⟨?_, ?_⟩, ?_⟩⟩
  · rintro ⟨v, hpasses⟩
    by_contra hrefused
    rcases value_item_of_none hstart (hreads.refused hword hrefused) l.afterOperand with
      ⟨lexeme, hfault⟩
    -- The token would have to be read right here, where there is a fault.
    rcases hpasses.uncons with ⟨m, kind, d, ds, rest', hskip, hrest', htoken, _, _⟩
    cases hskip with
    | refl =>
        rw [hrest] at hrest'
        cases hrest'
        rw [htoken] at hfault
        cases hfault
    | trivia htext heq _ =>
        rw [hrest] at htext
        cases htext
        rw [heq] at hfault
        cases hfault
  · intro haccepted
    rcases hreads.accepted hword haccepted with ⟨v, hread⟩
    have hitem := item_of_value hstart hread l.afterOperand
    have hsome : (item l.afterOperand c more).taken ≠ [] := taken_ne_nil_of_token (by rw [hitem])
    rcases Lexer.item_eq_cons hsome with ⟨cs, rest', rfl, heq⟩
    rw [hitem] at heq
    cases heq
    exact ⟨v, .token _ hrest hitem (.refl _)⟩
  · intro hrefused
    rcases value_item_of_none hstart (hreads.refused hword hrefused) l.afterOperand with
      ⟨lexeme, hfault⟩
    refine ⟨lexeme, ?_⟩
    show Except.map _ (Lexer.ofText text).run.1 = _
    rw [h.run_error (Lexer.run_of_fault hrest hfault)]
    rfl

def behindPlus : Lexer :=
  ⟨"0xFFFFFFFFFFFFFFFF;".toList, ⟨1, 2, 1⟩, false, false⟩

theorem number_iff_accepted_widest :
    (Lexer.ofText "+0xFFFFFFFFFFFFFFFF;").Passes
        [⟨.punctuator .plus, "+", ⟨1, 1, 0⟩, false⟩] behindPlus ∧
      behindPlus.rest = '0' :: "xFFFFFFFFFFFFFFFF;".toList ∧
      startsNumber '0' "xFFFFFFFFFFFFFFFF;".toList = true ∧
      exists numeral rest, '0' :: "xFFFFFFFFFFFFFFFF;".toList = numeral ++ rest ∧
        LongestFront Numeral numeral ('0' :: "xFFFFFFFFFFFFFFFF;".toList) ∧
        (((exists digits, HexNumeral digits numeral) -> startsWord rest = false) ->
          ((exists v, behindPlus.Passes [behindPlus.tokenHere (.number v) numeral]
              (behindPlus.after ⟨.token (.number v), numeral, rest⟩)) ↔ Accepted numeral rest) ∧
          (¬ Accepted numeral rest -> exists lexeme,
            tokensOf "+0xFFFFFFFFFFFFFFFF;" =
            .error ⟨.invalidNumber lexeme, behindPlus.place⟩)) := by
  have h : (Lexer.ofText "+0xFFFFFFFFFFFFFFFF;").Passes
      [⟨.punctuator .plus, "+", ⟨1, 1, 0⟩, false⟩] behindPlus := by
    have htext : (Lexer.ofText "+0xFFFFFFFFFFFFFFFF;").rest =
        '+' :: ([] ++ "0xFFFFFFFFFFFFFFFF;".toList) := by
      decide
    exact .token (.punctuator .plus) htext rfl (.refl _)
  exact ⟨h, by decide, by decide, number_iff_accepted h (by decide) (by decide)⟩

/-- A numeral of more than 64 bits is refused, though nothing goes on behind it. One with a word
right behind it is read, though no decimal one is. -/
theorem numerals_read_otherwise :
    (LongestFront Numeral "0x10000000000000000".toList "0x10000000000000000".toList ∧
      EndsNumeral [] ∧
      tokensOf "0x10000000000000000" =
        .error ⟨.invalidNumber "0x10000000000000000", Place.start⟩) ∧
    (LongestFront Numeral "0x1".toList "0x1G".toList ∧ ¬ EndsNumeral ['G'] ∧
      exists v, (Lexer.ofText "0x1G").Passes
        [(Lexer.ofText "0x1G").tokenHere (.number v) "0x1".toList]
        ((Lexer.ofText "0x1G").after ⟨.token (.number v), "0x1".toList, ['G']⟩)) := by
  have hwide : HexNumeral "10000000000000000".toList "0x10000000000000000".toList :=
    .mk (.inl rfl) (by decide) (by decide)
  have hfault : (item false '0' "x10000000000000000".toList).value =
      .fault (.invalidNumber "0x10000000000000000") := rfl
  have hone : HexNumeral ['1'] "0x1".toList := .mk (.inl rfl) (by decide) (by decide)
  have hread := numericLiteral_of_digits (.inl rfl) ['1', 'G'] (by decide)
  rw [if_pos (by decide)] at hread
  refine ⟨⟨⟨.inl ⟨_, hwide⟩, List.prefix_refl _, fun other _ hfront => hfront.length_le⟩,
    nofun, ?_⟩,
    ⟨.inl ⟨_, hone⟩, ⟨['G'], rfl⟩, fun other hother hfront => ?_⟩, fun hends => ?_, ?_⟩
  · show Except.map _ (Lexer.ofText "0x10000000000000000").run.1 = _
    have htext : (Lexer.ofText "0x10000000000000000").rest = '0' :: "x10000000000000000".toList :=
      rfl
    rw [Lexer.run_of_fault htext hfault]
    rfl
  · rcases length_le_of_mark (.inl rfl) ['1', 'G'] hother hfront with hless | ⟨_, _, hleast⟩
    · exact Nat.le_trans hless (by decide)
    · exact hleast
  · exact absurd (hends 'G' rfl).1 (by decide +kernel)
  · have htext : (Lexer.ofText "0x1G").rest = '0' :: (['x', '1'] ++ ['G']) := rfl
    exact ⟨_, .token _ htext (item_of_value (by decide) hread false) (.refl _)⟩

end Token
end ScriptHints
