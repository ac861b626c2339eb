import ScriptHints.Token.Lexer

/-!
# Scanners are local

What a scanner takes depends on the characters that it takes and on the first one behind them.
It takes the same characters in front of any text that begins like the one behind them, and at
the end of a text. A blank and a semicolon may come instead, which no token takes.
-/

namespace ScriptHints
namespace Token

open Text Number

/-!
## Texts that begin alike
-/

/-- The second text is empty, or it begins like the first one or with one of some characters. -/
def Begins (p : Char → Bool) (rest rest' : List Char) : Prop :=
  forall c, rest'.head? = some c -> rest.head? = some c ∨ p c = true

def isApart (c : Char) : Bool :=
  c = ' ' || c = ';'

section

variable {p q : Char → Bool} {rest rest' : List Char}

theorem begins_nil (p : Char → Bool) (rest : List Char) : Begins p rest [] :=
  nofun

theorem begins_of_head?_eq (p : Char → Bool) (h : rest'.head? = rest.head?) :
    Begins p rest rest' := by
  intro c hc
  exact .inl (h.symm.trans hc)

theorem begins_of_apart {c : Char} (hc : isApart c = true) (rest text : List Char) :
    Begins isApart rest (c :: text) := by
  rintro _ ⟨rfl⟩
  exact .inr hc

theorem Begins.mono (h : Begins p rest rest') (hpq : forall c, p c = true -> q c = true) :
    Begins q rest rest' :=
  fun c hc => (h c hc).imp_right (hpq c)

theorem Begins.append (h : Begins p rest rest') (front : List Char) :
    Begins p (front ++ rest) (front ++ rest') := by
  cases front with
  | nil => exact h
  | cons c front => exact begins_of_head?_eq p rfl

/-- What holds of no first character of the one text holds of none of the other one. -/
theorem Begins.not_head (h : Begins p rest rest') (hp : forall c, p c = true -> q c = false)
    (hrest : forall c, rest.head? = some c -> q c = false) (c : Char)
    (hc : rest'.head? = some c) : q c = false := by
  rcases h c hc with hsame | hapart
  · exact hrest c hsame
  · exact hp c hapart

theorem Begins.apart_not_head (h : Begins isApart rest rest') (hblank : q ' ' = false)
    (hsemicolon : q ';' = false) (hrest : forall c, rest.head? = some c -> q c = false) (c : Char)
    (hc : rest'.head? = some c) : q c = false := by
  refine h.not_head ?_ hrest c hc
  intro d hd
  rcases Bool.or_eq_true_iff.mp hd with hd | hd
  · rw [of_decide_eq_true hd]
    exact hblank
  · rw [of_decide_eq_true hd]
    exact hsemicolon

theorem Begins.head?_ne (h : Begins isApart rest rest') {d : Char} (hd : isApart d = false)
    (hrest : rest.head? ≠ some d) : rest'.head? ≠ some d := by
  intro hsame
  rcases h d hsame with hhead | hapart
  · exact hrest hhead
  · rw [hd] at hapart
    cases hapart

end

def Reading.before (r : Reading α) (rest : List Char) : Reading α :=
  { r with rest := rest }

/-!
## Runs of characters
-/

theorem run_append (q : Char → Bool) {front rest : List Char}
    (hfront : forall c, c ∈ front -> q c = true)
    (hrest : forall c, rest.head? = some c -> q c = false) :
    Reading.run q (front ++ rest) = ⟨(), front, rest⟩ := by
  have hstop : rest.takeWhile q = [] ∧ rest.dropWhile q = rest := by
    cases rest with
    | nil => exact ⟨rfl, rfl⟩
    | cons c rest => simp [hrest c rfl]
  unfold Reading.run
  rw [List.takeWhile_append_of_pos hfront, List.dropWhile_append_of_pos hfront, hstop.1, hstop.2,
    List.append_nil]

theorem mem_run_taken {q : Char → Bool} {text : List Char} {c : Char}
    (hc : c ∈ (Reading.run q text).taken) : q c = true :=
  List.all_eq_true.mp List.all_takeWhile c hc

theorem head?_run_rest {q : Char → Bool} {text : List Char} {c : Char}
    (hc : (Reading.run q text).rest.head? = some c) : q c = false := by
  have hstops := List.head?_dropWhile_not q text
  have hc : (List.dropWhile q text).head? = some c := hc
  rw [hc] at hstops
  simpa using hstops

theorem run_before {q : Char → Bool} (text : List Char) {rest : List Char}
    (hrest : forall c, rest.head? = some c -> q c = false) :
    Reading.run q ((Reading.run q text).taken ++ rest) = (Reading.run q text).before rest :=
  run_append q (fun _ => mem_run_taken) hrest

/-!
## Numbers
-/

theorem signPart_cases (text : List Char) :
    (exists more, text = '+' :: more) ∨ (exists more, text = '-' :: more) ∨
      signPart text = ⟨false, [], text⟩ := by
  unfold signPart
  split
  next more => exact .inl ⟨more, rfl⟩
  next more => exact .inr (.inl ⟨more, rfl⟩)
  next => exact .inr (.inr rfl)

theorem signPart_before (text : List Char) {digits : List Char} (rest : List Char)
    (hdigits : forall c, c ∈ digits -> c.isDigit = true) (hsome : digits ≠ []) :
    signPart ((signPart text).taken ++ (digits ++ rest)) =
      (signPart text).before (digits ++ rest) := by
  rcases signPart_cases text with ⟨more, hplus⟩ | ⟨more, hminus⟩ | hnone
  · rw [hplus]
    rfl
  · rw [hminus]
    rfl
  · rw [hnone]
    cases digits with
    | nil => exact absurd rfl hsome
    | cons d digits =>
        have hd := hdigits d List.mem_cons_self
        rcases signPart_cases (d :: (digits ++ rest)) with ⟨more, heq⟩ | ⟨more, heq⟩ | heq
        · injection heq with hplus
          rw [hplus] at hd
          cases hd
        · injection heq with hminus
          rw [hminus] at hd
          cases hd
        · exact heq

theorem startsWord_eq_false_iff {text : List Char} :
    startsWord text = false ↔ forall c, text.head? = some c -> isWordStart c = false := by
  cases text with
  | nil => exact ⟨fun _ => nofun, fun _ => rfl⟩
  | cons c text => simp [startsWord]

def isExponentMark (c : Char) : Bool :=
  c = 'e' || c = 'E'

theorem exponentPart_of_head {text : List Char}
    (h : forall c, text.head? = some c -> isExponentMark c = false) :
    exponentPart text = ⟨0, [], text⟩ := by
  cases text with
  | nil => rfl
  | cons c text =>
      have hmark : (decide (c = 'e') || decide (c = 'E')) = false := h c rfl
      simp only [exponentPart, hmark, Bool.false_and, Bool.false_eq_true, if_false]

/-- Digits behind an exponent are taken, and without a word behind it a mark is an exponent. -/
theorem exponentPart_before (text : List Char) {rest : List Char}
    (hdigit : forall c, rest.head? = some c -> c.isDigit = false)
    (hmark : forall c, rest.head? = some c -> isExponentMark c = false) :
    exponentPart ((exponentPart text).taken ++ rest) = (exponentPart text).before rest := by
  cases text with
  | nil => exact exponentPart_of_head hmark
  | cons mark more =>
      have hdigits (c : Char) (h : c ∈ (Reading.run Char.isDigit (signPart more).rest).taken) :
          c.isDigit = true := mem_run_taken h
      by_cases h : ((mark = 'e' || mark = 'E') &&
          !(Reading.run Char.isDigit (signPart more).rest).taken.isEmpty) = true
      · have hsome : (Reading.run Char.isDigit (signPart more).rest).taken ≠ [] := by
          simp only [Bool.and_eq_true, Bool.not_eq_true', List.isEmpty_eq_false_iff] at h
          exact h.2
        have hsign := signPart_before more rest hdigits hsome
        have hrun := run_append Char.isDigit hdigits hdigit
        simp only [exponentPart, h, if_true, List.cons_append, List.append_assoc, hsign,
          Reading.before, hrun]
      · have hnone : exponentPart (mark :: more) = ⟨0, [], mark :: more⟩ := by
          simp only [exponentPart]
          rw [if_neg h]
        rw [hnone]
        exact exponentPart_of_head hmark

theorem fractionPart_of_head {text : List Char} (h : text.head? ≠ some '.') :
    fractionPart text = ⟨[], [], text⟩ := by
  unfold fractionPart
  split
  next => exact absurd rfl h
  next => rfl

theorem fractionPart_before (text : List Char) {rest : List Char}
    (hdigit : forall c, rest.head? = some c -> c.isDigit = false)
    (hpoint : text.head? ≠ some '.' -> rest.head? ≠ some '.') :
    fractionPart ((fractionPart text).taken ++ rest) = (fractionPart text).before rest := by
  by_cases h : text.head? = some '.'
  · rw [eq_cons_drop_of_head? h]
    have hrun := run_before (text.drop 1) hdigit
    simp only [fractionPart, Reading.extend, Reading.map, List.cons_append, List.nil_append, hrun]
    rfl
  · rw [fractionPart_of_head h]
    exact fractionPart_of_head (hpoint h)

theorem head_append_cases {front rest : List Char} {c : Char} (h : (front ++ rest).head? = some c) :
    front.head? = some c ∨ front = [] ∧ rest.head? = some c := by
  cases front with
  | nil => exact .inr ⟨rfl, h⟩
  | cons d front => exact .inl h

theorem head_exponentPart_taken {text : List Char} {c : Char}
    (h : (exponentPart text).taken.head? = some c) : isExponentMark c = true := by
  cases text with
  | nil => cases h
  | cons mark more =>
      by_cases hmark : ((mark = 'e' || mark = 'E') &&
          !(Reading.run Char.isDigit (signPart more).rest).taken.isEmpty) = true
      · simp only [exponentPart, hmark, if_true, List.head?_cons, Option.some.injEq] at h
        rw [← h]
        exact (Bool.and_eq_true_iff.mp hmark).1
      · simp only [exponentPart] at h
        rw [if_neg hmark] at h
        cases h

theorem head_fractionPart_taken {text : List Char} {c : Char}
    (h : (fractionPart text).taken.head? = some c) : c = '.' := by
  unfold fractionPart at h
  split at h
  next =>
    injection h with h
    exact h.symm
  next => cases h

theorem isExponentMark_plain {c : Char} (h : isExponentMark c = true) :
    c.isDigit = false ∧ c ≠ '.' ∧ isWordStart c = true := by
  rcases Bool.or_eq_true_iff.mp h with h | h
  · rw [of_decide_eq_true h]
    decide +kernel
  · rw [of_decide_eq_true h]
    decide +kernel

theorem head_fractionPart_rest {text : List Char} {c : Char}
    (htext : forall d, text.head? = some d -> d.isDigit = false)
    (h : (fractionPart text).rest.head? = some c) : c.isDigit = false := by
  by_cases hpoint : text.head? = some '.'
  · rw [eq_cons_drop_of_head? hpoint] at h
    exact head?_run_rest (show (Reading.run Char.isDigit (text.drop 1)).rest.head? = some c from h)
  · rw [fractionPart_of_head hpoint] at h
    exact htext c h

theorem head_exponentPart_rest {text : List Char} {c : Char}
    (htext : forall d, text.head? = some d -> d.isDigit = false)
    (h : (exponentPart text).rest.head? = some c) : c.isDigit = false := by
  cases text with
  | nil => cases h
  | cons mark more =>
      simp only [exponentPart] at h
      split at h
      next => exact head?_run_rest h
      next => exact htext c h

section

variable {text rest : List Char}

theorem head_decimalLiteral_rest {c : Char} (h : (decimalLiteral text).rest.head? = some c) :
    c.isDigit = false :=
  head_exponentPart_rest (fun _ => head_fractionPart_rest fun _ => head?_run_rest) h

theorem decimalLiteral_before (hword : startsWord (decimalLiteral text).rest = false)
    (hbegins : Begins isApart (decimalLiteral text).rest rest) :
    decimalLiteral ((decimalLiteral text).taken ++ rest) = (decimalLiteral text).before rest := by
  let whole := Reading.run Char.isDigit text
  let fraction := fractionPart whole.rest
  let exponent := exponentPart fraction.rest
  have hrest : (decimalLiteral text).rest = exponent.rest := rfl
  rw [hrest] at hword hbegins
  have hdigit := hbegins.apart_not_head (q := Char.isDigit) rfl rfl fun _ =>
    head_decimalLiteral_rest
  have hmark := hbegins.apart_not_head (q := isExponentMark) rfl rfl (by
    intro c hc
    rw [Bool.eq_false_iff]
    intro hexponent
    have hstart := (isExponentMark_plain hexponent).2.2
    rw [startsWord_eq_false_iff.mp hword c hc] at hstart
    cases hstart)
  have hexponent : exponentPart (exponent.taken ++ rest) = exponent.before rest :=
    exponentPart_before fraction.rest hdigit hmark
  have hbehind (c : Char) (hc : (exponent.taken ++ rest).head? = some c) : c.isDigit = false := by
    rcases head_append_cases hc with hhead | ⟨_, hhead⟩
    · exact (isExponentMark_plain (head_exponentPart_taken hhead)).1
    · exact hdigit c hhead
  have hfraction : fractionPart (fraction.taken ++ (exponent.taken ++ rest)) =
      fraction.before (exponent.taken ++ rest) := by
    refine fractionPart_before whole.rest hbehind fun hpoint hhead => ?_
    rcases head_append_cases hhead with hmark | ⟨hnone, hhead⟩
    · exact (isExponentMark_plain (head_exponentPart_taken hmark)).2.1 rfl
    · -- Neither a fraction nor an exponent was taken, so that no point came behind the digits.
      have hsplits : exponent.taken ++ exponent.rest = fraction.rest := splits_exponentPart _
      rw [hnone, List.nil_append, show fraction = ⟨[], [], whole.rest⟩ from
        fractionPart_of_head hpoint] at hsplits
      rw [hsplits] at hbegins
      exact hbegins.head?_ne rfl hpoint hhead
  have hwhole : Reading.run Char.isDigit
    (whole.taken ++ (fraction.taken ++ (exponent.taken ++ rest))) =
      whole.before (fraction.taken ++ (exponent.taken ++ rest)) := by
    refine run_before text fun c hc => ?_
    rcases head_append_cases hc with hhead | ⟨_, hhead⟩
    · rw [head_fractionPart_taken hhead]
      rfl
    · exact hbehind c hhead
  show decimalLiteral ((whole.taken ++ (fraction.taken ++ exponent.taken)) ++ rest) = _
  unfold decimalLiteral
  simp only [List.append_assoc, hwhole, Reading.before, hfraction, hexponent]
  rfl

def BeginsHex (text : List Char) : Prop :=
  exists mark more, text = '0' :: mark :: more ∧ (mark = 'x' ∨ mark = 'X')

theorem numericLiteral_of_decimal (h : ¬ BeginsHex text) :
    numericLiteral text =
      (decimalLiteral text).map fun d =>
        if startsWord (decimalLiteral text).rest then none else some d.toBinary64 := by
  unfold numericLiteral
  split
  next more => exact absurd ⟨'x', more, rfl, .inl rfl⟩ h
  next more => exact absurd ⟨'X', more, rfl, .inr rfl⟩ h
  next => rfl

theorem not_beginsHex_append {taken more : List Char} (h : ¬ BeginsHex (taken ++ more))
    (hsome : taken ≠ []) (hbegins : Begins isApart more rest) : ¬ BeginsHex (taken ++ rest) := by
  rintro ⟨mark, behind, heq, hmark⟩
  cases taken with
  | nil => exact hsome rfl
  | cons c taken =>
      injection heq with hzero htail
      cases taken with
      | nil =>
          have hhead : rest.head? = some mark := by
            rw [show rest = mark :: behind from htail]
            rfl
          rcases hbegins mark hhead with hsame | hapart
          · cases more with
            | nil => cases hsame
            | cons d more =>
                cases hsame
                exact h ⟨mark, more, by rw [hzero]; rfl, hmark⟩
          · rcases hmark with rfl | rfl <;> cases hapart
      | cons d taken =>
          injection htail with hd _
          refine h ⟨mark, taken ++ more, ?_, hmark⟩
          rw [hzero, hd]
          rfl

theorem hexLiteralTail_before (hbegins : Begins isApart (hexLiteralTail text).rest rest) :
    hexLiteralTail ((hexLiteralTail text).taken ++ rest) = (hexLiteralTail text).before rest := by
  have hrest := hbegins.apart_not_head (q := isHexDigit) rfl rfl fun _ => head?_run_rest
  have hrun := run_before (q := isHexDigit) text hrest
  show hexLiteralTail ((Reading.run isHexDigit text).taken ++ rest) = _
  unfold hexLiteralTail
  simp only [hrun]
  rfl

theorem numericLiteral_before (hvalue : (numericLiteral text).value ≠ none)
    (hsome : (numericLiteral text).taken ≠ [])
    (hbegins : Begins isApart (numericLiteral text).rest rest) :
    numericLiteral ((numericLiteral text).taken ++ rest) = (numericLiteral text).before rest := by
  by_cases hhex : BeginsHex text
  · rcases hhex with ⟨mark, more, rfl, rfl | rfl⟩
    · show ((hexLiteralTail ((hexLiteralTail more).taken ++ rest)).extend ['0', 'x']) = _
      rw [hexLiteralTail_before hbegins]
      rfl
    · show ((hexLiteralTail ((hexLiteralTail more).taken ++ rest)).extend ['0', 'X']) = _
      rw [hexLiteralTail_before hbegins]
      rfl
  · have hliteral := numericLiteral_of_decimal hhex
    have hsplits : (decimalLiteral text).taken ++ (decimalLiteral text).rest = text :=
      splits_decimalLiteral text
    rw [hliteral] at hvalue hsome hbegins ⊢
    have hbegins : Begins isApart (decimalLiteral text).rest rest := hbegins
    have hsome : (decimalLiteral text).taken ≠ [] := hsome
    have hword : startsWord (decimalLiteral text).rest = false := by
      cases hstarts : startsWord (decimalLiteral text).rest with
      | false => rfl
      | true =>
          rw [hstarts] at hvalue
          exact absurd rfl hvalue
    have hword' : startsWord rest = false :=
      startsWord_eq_false_iff.mpr (hbegins.apart_not_head (by decide +kernel) (by decide +kernel)
        (startsWord_eq_false_iff.mp hword))
    rw [← hsplits] at hhex
    show numericLiteral ((decimalLiteral text).taken ++ rest) = _
    rw [numericLiteral_of_decimal (not_beginsHex_append hhex hsome hbegins),
      decimalLiteral_before hword hbegins]
    simp only [Reading.before, Reading.map, hword, hword']

end

/-!
## Strings
-/

def hexChar? (count : Nat) (digits : List Char) : Option Char :=
  if digits.length = count && digits.all isHexDigit then charOfCode? (ofDigits 16 digits) else none

theorem hexEscape_eq (count : Nat) (letter : Char) (text : List Char) :
    hexEscape count letter text =
      match hexChar? count (text.take count) with
      | some c => ⟨[c], text.take count, text.drop count⟩
      | none => ⟨[letter], [], text⟩ := by
  unfold hexEscape hexChar?
  dsimp only
  generalize (decide ((text.take count).length = count) && (text.take count).all isHexDigit) = valid
  generalize charOfCode? (ofDigits 16 (text.take count)) = decoded
  cases valid <;> cases decoded <;> rfl

/-- Among the characters that an escape looks at, one that is no digit decides. -/
theorem hexEscape_before {count : Nat} {letter : Char} {text front rest : List Char}
    (htext : (hexEscape count letter text).rest = front ++ rest)
    (hfront : exists c, c ∈ front ∧ isHexDigit c = false) (rest' : List Char) :
    hexEscape count letter ((hexEscape count letter text).taken ++ (front ++ rest')) =
      (hexEscape count letter text).before (front ++ rest') := by
  cases hchar : hexChar? count (text.take count) with
  | some c =>
      have heq : hexEscape count letter text = ⟨[c], text.take count, text.drop count⟩ := by
        rw [hexEscape_eq, hchar]
      have hlength : (text.take count).length = count := by
        unfold hexChar? at hchar
        split at hchar
        next hdigits => exact of_decide_eq_true (Bool.and_eq_true_iff.mp hdigits).1
        next => cases hchar
      rw [heq, hexEscape_eq]
      dsimp only
      rw [List.take_left' hlength, List.drop_left' hlength, hchar]
      rfl
  | none =>
      have heq : hexEscape count letter text = ⟨[letter], [], text⟩ := by
        rw [hexEscape_eq, hchar]
      rw [heq] at htext
      have htext : text = front ++ rest := htext
      have hchar' : hexChar? count ((front ++ rest').take count) = none := by
        by_cases hlength : count ≤ front.length
        · rw [htext, List.take_append_of_le_length hlength] at hchar
          rw [List.take_append_of_le_length hlength]
          exact hchar
        · rcases hfront with ⟨c, hc, hdigit⟩
          have hmem : c ∈ (front ++ rest').take count := by
            rw [List.take_append, List.take_of_length_le (by omega)]
            exact List.mem_append_left _ hc
          unfold hexChar?
          rw [if_neg]
          intro hdigits
          have hall := List.all_eq_true.mp (Bool.and_eq_true_iff.mp hdigits).2 c hmem
          rw [hdigit] at hall
          cases hall
      rw [heq, List.nil_append, hexEscape_eq, hchar']
      rfl

theorem continuation_of_two {text : List Char} (h : text.head? ≠ some '\n') :
    continuation '\r' ('\n' :: text) = ⟨[], ['\r', '\n'], text⟩ := by
  cases text with
  | nil => rfl
  | cons c text =>
      have hc : c ≠ '\n' := fun heq => h (congrArg some heq)
      simp [continuation, hc]

theorem continuation_of_one {e : Char} {text : List Char}
    (h : e = '\r' -> text.head? ≠ some '\n') : continuation e text = ⟨[], [e], text⟩ := by
  unfold continuation
  split
  next => exact absurd rfl (h rfl)
  next => exact absurd rfl (h rfl)
  next => rfl

theorem continuation_before {e : Char} {more front rest : List Char}
    (hmore : (continuation e more).rest = front ++ rest) (hfront : front ≠ []) (rest' : List Char) :
    exists cs, (continuation e more).taken = e :: cs ∧
      continuation e (cs ++ (front ++ rest')) = (continuation e more).before (front ++ rest') := by
  have hhead : (front ++ rest').head? = (front ++ rest).head? := by
    cases front with
    | nil => exact absurd rfl hfront
    | cons c front => rfl
  by_cases hfirst : e = '\r' ∧ more.head? = some '\n'
  · rcases hfirst with ⟨rfl, hfirst⟩
    rw [eq_cons_drop_of_head? hfirst] at hmore ⊢
    generalize more.drop 1 = more at hmore ⊢
    by_cases hsecond : more.head? = some '\n'
    · rw [eq_cons_drop_of_head? hsecond]
      exact ⟨['\n', '\n'], rfl, rfl⟩
    · rw [continuation_of_two hsecond] at hmore ⊢
      have hmore : more = front ++ rest := hmore
      rw [hmore, ← hhead] at hsecond
      exact ⟨['\n'], rfl, continuation_of_two hsecond⟩
  · have hone (heq : e = '\r') : more.head? ≠ some '\n' := fun hhead => hfirst ⟨heq, hhead⟩
    rw [continuation_of_one hone] at hmore ⊢
    have hmore : more = front ++ rest := hmore
    rw [hmore, ← hhead] at hone
    exact ⟨[], rfl, continuation_of_one hone⟩

theorem escape_of_terminator {e : Char} (h : isLineTerminator e = true) (text : List Char) :
    escape e text = continuation e text := by
  simp only [isLineTerminator, Bool.or_eq_true, decide_eq_true_eq] at h
  rcases h with ((rfl | rfl) | rfl) | rfl <;> rfl

/-- Behind what an escape takes there are characters up to a quote, and only these it looks at. -/
theorem escape_before (e : Char) {more front rest : List Char}
    (hmore : (escape e more).rest = front ++ rest)
    (hfront : exists c, c ∈ front ∧ isHexDigit c = false) (rest' : List Char) :
    exists cs, (escape e more).taken = e :: cs ∧
      escape e (cs ++ (front ++ rest')) = (escape e more).before (front ++ rest') := by
  by_cases hline : isLineTerminator e = true
  · simp only [escape_of_terminator hline] at hmore ⊢
    rcases hfront with ⟨c, hc, _⟩
    exact continuation_before hmore (List.ne_nil_of_mem hc) rest'
  unfold escape at hmore ⊢
  split
  case h_8 =>
    refine ⟨(hexEscape 2 'x' more).taken, rfl, ?_⟩
    rw [hexEscape_before hmore hfront]
    rfl
  case h_9 =>
    refine ⟨(hexEscape 4 'u' more).taken, rfl, ?_⟩
    rw [hexEscape_before hmore hfront]
    rfl
  case h_10 =>
    simp only [if_neg hline]
    exact ⟨[], rfl, rfl⟩
  all_goals exact ⟨[], rfl, rfl⟩

theorem stringTail_quote (quote : Char) (text : List Char) :
    stringTail quote (quote :: text) = ⟨some [], [quote], text⟩ := by
  rw [stringTail.eq_def]
  exact if_pos rfl

theorem stringTail_plain {quote c : Char} (hquote : c ≠ quote) (hescape : c ≠ '\\')
    (hline : ¬ isLineTerminator c = true) (text : List Char) :
    stringTail quote (c :: text) = ((stringTail quote text).map (·.map (c :: ·))).extend [c] := by
  rw [stringTail.eq_def]
  dsimp only
  rw [if_neg hquote, if_neg hescape, if_neg hline]

theorem stringTail_escape {quote : Char} (hquote : '\\' ≠ quote) (e : Char) (text : List Char) :
    stringTail quote ('\\' :: e :: text) =
      ((stringTail quote (escape e text).rest).map (·.map ((escape e text).value ++ ·))).extend
        ('\\' :: (escape e text).taken) := by
  rw [stringTail.eq_def]
  dsimp only
  rw [if_neg hquote, if_pos rfl]

theorem stringTail_before {quote : Char} {text : List Char} (hquote : isHexDigit quote = false)
    (hvalue : (stringTail quote text).value ≠ none) (rest : List Char) :
    quote ∈ (stringTail quote text).taken ∧
      stringTail quote ((stringTail quote text).taken ++ rest) =
        (stringTail quote text).before rest := by
  fun_induction stringTail quote text with
  | case1 => exact absurd rfl hvalue
  | case2 text =>
      refine ⟨List.mem_cons_self, ?_⟩
      exact stringTail_quote quote rest
  | case3 => exact absurd rfl hvalue
  | case4 e more piece hescape ih =>
      have hsome : (stringTail quote piece.rest).value ≠ none := by
        intro hnone
        exact hvalue (by simp only [Reading.extend, Reading.map, hnone]; rfl)
      rcases ih hsome with ⟨hmem, htail⟩
      have hsplits := splits_stringTail quote piece.rest
      rcases escape_before e hsplits.symm ⟨quote, hmem, hquote⟩ rest with
        ⟨cs, hcs, hpiece⟩
      refine ⟨List.mem_cons_of_mem _ (List.mem_append_right _ hmem), ?_⟩
      show stringTail quote ('\\' :: (piece.taken ++ (stringTail quote piece.rest).taken) ++
        rest) = _
      rw [List.cons_append, List.append_assoc, show piece.taken = e :: cs from hcs,
        List.cons_append,
        stringTail_escape hescape, hpiece]
      show ((stringTail quote ((stringTail quote piece.rest).taken ++ rest)).map _).extend _ = _
      rw [htail]
      simp only [Reading.before, Reading.extend, Reading.map, hcs]
      rfl
  | case5 c text _ _ _ => exact absurd rfl hvalue
  | case6 c text hother hescape hline ih =>
      have hsome : (stringTail quote text).value ≠ none := by
        intro hnone
        exact hvalue (by simp only [Reading.extend, Reading.map, hnone]; rfl)
      rcases ih hsome with ⟨hmem, htail⟩
      refine ⟨List.mem_cons_of_mem _ hmem, ?_⟩
      show stringTail quote (c :: ((stringTail quote text).taken ++ rest)) = _
      rw [stringTail_plain hother hescape hline, htail]
      rfl

/-!
## Regular expressions and comments
-/

theorem patternTail_before {inClass : Bool} {text : List Char}
    (hvalue : (patternTail inClass text).value ≠ none) (rest : List Char) :
    patternTail inClass ((patternTail inClass text).taken ++ rest) =
      (patternTail inClass text).before rest := by
  fun_induction patternTail inClass text with
  | case1 => exact absurd rfl hvalue
  | case2 => exact absurd rfl hvalue
  | case3 inClass c text hline hslash =>
      rw [List.singleton_append, patternTail.eq_def]
      dsimp only
      rw [if_neg hline, if_pos hslash]
      rfl
  | case4 => exact absurd rfl hvalue
  | case5 => exact absurd rfl hvalue
  | case6 inClass e more hline hslash hnext ih =>
      have hsome : (patternTail inClass more).value ≠ none := by
        intro hnone
        exact hvalue (by simp only [Reading.extend, Reading.map, hnone]; rfl)
      show patternTail inClass ('\\' :: e :: ((patternTail inClass more).taken ++ rest)) = _
      rw [patternTail.eq_def]
      dsimp only
      rw [if_neg hline, if_neg hslash, if_pos rfl, if_neg hnext, ih hsome]
      rfl
  | case7 inClass c text hline hslash hescape inClass' ih =>
      have hsome : (patternTail inClass' text).value ≠ none := by
        intro hnone
        exact hvalue (by simp only [Reading.extend, Reading.map, hnone]; rfl)
      show patternTail inClass (c :: ((patternTail inClass' text).taken ++ rest)) = _
      rw [patternTail.eq_def]
      dsimp only
      rw [if_neg hline, if_neg hslash, if_neg hescape, ih hsome]
      rfl

theorem wordTail_before (text : List Char) {rest : List Char}
    (hbegins : Begins isApart (wordTail text).rest rest) :
    wordTail ((wordTail text).taken ++ rest) = (wordTail text).before rest :=
  run_before text (hbegins.apart_not_head (by decide +kernel) (by decide +kernel)
    fun _ => head?_run_rest)

theorem regExpTail_before {text rest : List Char} (hvalue : (regExpTail text).value ≠ none)
    (hbegins : Begins isApart (regExpTail text).rest rest) :
    regExpTail ((regExpTail text).taken ++ rest) = (regExpTail text).before rest := by
  cases hpattern : (patternTail false text).value with
  | none =>
      unfold regExpTail at hvalue
      simp only [hpattern] at hvalue
      exact absurd rfl hvalue
  | some pattern =>
      have heq : regExpTail text =
          ⟨some (pattern, (wordTail (patternTail false text).rest).taken),
            (patternTail false text).taken ++ (wordTail (patternTail false text).rest).taken,
            (wordTail (patternTail false text).rest).rest⟩ := by
        unfold regExpTail
        simp only [hpattern]
      rw [heq] at hbegins ⊢
      have hpatternValue : (patternTail false text).value ≠ none := by rw [hpattern]; exact nofun
      have htail := patternTail_before hpatternValue
        ((wordTail (patternTail false text).rest).taken ++ rest)
      have hflags := wordTail_before _ hbegins
      dsimp only
      rw [List.append_assoc]
      unfold regExpTail
      rw [htail]
      simp only [Reading.before, hpattern, hflags]

theorem blockCommentTail_before {text : List Char} (hvalue : (blockCommentTail text).value = true)
    (rest : List Char) :
    (blockCommentTail text).taken ≠ [] ∧
      blockCommentTail ((blockCommentTail text).taken ++ rest) =
        (blockCommentTail text).before rest := by
  fun_induction blockCommentTail text with
  | case1 => cases hvalue
  | case2 text => exact ⟨List.cons_ne_nil _ _, rfl⟩
  | case3 c text hopen ih =>
      rcases ih hvalue with ⟨hsome, htail⟩
      refine ⟨List.cons_ne_nil _ _, ?_⟩
      show blockCommentTail (c :: ((blockCommentTail text).taken ++ rest)) = _
      rw [blockCommentTail, htail]
      · rfl
      · -- The two first characters are those of the text.
        intro more hstar hslash
        have hsplits := splits_blockCommentTail text
        cases htaken : (blockCommentTail text).taken with
        | nil => exact hsome htaken
        | cons d taken =>
            rw [htaken] at hslash
            injection hslash with hd _
            unfold Reading.Splits at hsplits
            rw [htaken, hd] at hsplits
            exact hopen _ hstar hsplits.symm

end Token
end ScriptHints
