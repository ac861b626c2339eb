import ScriptHints.Proofs.Bytes.Strings

/-!
# Scans of numbers

A decimal literal is scanned first and read afterwards, as the slice that the scan moved over.
Its digits, its fraction and its exponent are the same in that slice as in the text.
-/

namespace ScriptHints
namespace Token

open Number Text

/-!
## Literals read from their own text
-/

theorem run_taken_append (p : Char → Bool) (text : List Char) {more : List Char}
    (h : more.head?.any p = false) :
    Reading.run p ((Reading.run p text).taken ++ more) =
      ⟨(), (Reading.run p text).taken, more⟩ := by
  have hall : forall c, c ∈ text.takeWhile p -> p c = true := fun c hc =>
    List.mem_takeWhile_imp hc
  have hnone : more.takeWhile p = [] ∧ more.dropWhile p = more := by
    cases more with
    | nil => exact ⟨rfl, rfl⟩
    | cons c more =>
        have hc : p c = false := h
        exact ⟨by simp [hc], by simp [hc]⟩
  simp only [Reading.run]
  rw [List.takeWhile_append_of_pos hall, List.dropWhile_append_of_pos hall, hnone.1, hnone.2,
    List.append_nil]

theorem signPart_taken_append (text : List Char) {c : Char} (hc : c.isDigit = true)
    (digits : List Char) :
    signPart ((signPart text).taken ++ c :: digits) =
      ⟨(signPart text).value, (signPart text).taken, c :: digits⟩ := by
  fun_cases signPart text with
  | case1 more => rfl
  | case2 more => rfl
  | case3 =>
      show signPart (c :: digits) = _
      unfold signPart
      split
      next heq => cases heq; cases hc
      next heq => cases heq; cases hc
      next => rfl

/-- The mark of an exponent with digits behind it, after a sign or at once. -/
structure Marked (mark : Char) (more : List Char) (c : Char) (digits : List Char) : Prop where
  mark : (mark = 'e' || mark = 'E') = true
  digits : (Reading.run Char.isDigit (signPart more).rest).taken = c :: digits

theorem Marked.isDigit {mark c : Char} {more digits : List Char}
    (h : Marked mark more c digits) : c.isDigit = true := by
  have hmem : c ∈ (signPart more).rest.takeWhile Char.isDigit := by
    have hdigits : (signPart more).rest.takeWhile Char.isDigit = c :: digits := h.digits
    rw [hdigits]
    exact List.mem_cons_self
  exact List.mem_takeWhile_imp hmem

theorem Marked.exponentPart {mark c : Char} {more digits : List Char}
    (h : Marked mark more c digits) :
    exponentPart (mark :: more) =
      ⟨if (signPart more).value then -ofDigits 10 (c :: digits) else ofDigits 10 (c :: digits),
        mark :: ((signPart more).taken ++ c :: digits),
        (Reading.run Char.isDigit (signPart more).rest).rest⟩ := by
  unfold Token.exponentPart
  simp only [h.mark, h.digits, List.isEmpty_cons, Bool.not_false, Bool.and_true, if_true]

theorem exponentPart_cases (text : List Char) :
    exponentPart text = ⟨0, [], text⟩ ∨
      exists mark more c digits, text = mark :: more ∧ Marked mark more c digits := by
  cases text with
  | nil => exact .inl rfl
  | cons mark more =>
      cases hmark : (mark = 'e' || mark = 'E') with
      | false =>
          left
          simp only [exponentPart, hmark, Bool.false_and, Bool.false_eq_true, if_false]
      | true =>
          cases hdigits : (Reading.run Char.isDigit (signPart more).rest).taken with
          | nil =>
              left
              simp only [exponentPart, hdigits, List.isEmpty_nil, Bool.not_true, Bool.and_false,
                Bool.false_eq_true, if_false]
          | cons c digits => exact .inr ⟨mark, more, c, digits, rfl, hmark, hdigits⟩

theorem head?_exponentPart_taken (text : List Char) {p : Char → Bool}
    (he : p 'e' = false) (hE : p 'E' = false) :
    (exponentPart text).taken.head?.any p = false := by
  rcases exponentPart_cases text with h | ⟨mark, more, c, digits, rfl, h⟩
  · rw [h]
    rfl
  · have hmark := h.mark
    rw [Bool.or_eq_true, decide_eq_true_eq, decide_eq_true_eq] at hmark
    rw [h.exponentPart]
    rcases hmark with rfl | rfl
    · exact he
    · exact hE

theorem exponentPart_taken (text : List Char) :
    exponentPart (exponentPart text).taken =
      ⟨(exponentPart text).value, (exponentPart text).taken, []⟩ := by
  rcases exponentPart_cases text with h | ⟨mark, more, c, digits, rfl, h⟩
  · rw [h]
    rfl
  · have hsign := signPart_taken_append more h.isDigit digits
    have hrun := run_taken_append Char.isDigit (signPart more).rest (rfl : [].head?.any _ = false)
    rw [List.append_nil, h.digits] at hrun
    have hagain : Marked mark ((signPart more).taken ++ c :: digits) c digits :=
      ⟨h.mark, by rw [hsign, hrun]⟩
    rw [h.exponentPart, hagain.exponentPart, hsign, hrun]

theorem fractionPart_taken_append (text : List Char) {more : List Char}
    (hdigit : more.head?.any Char.isDigit = false) (hpoint : more.head?.any (· = '.') = false) :
    fractionPart ((fractionPart text).taken ++ more) =
      ⟨(fractionPart text).value, (fractionPart text).taken, more⟩ := by
  fun_cases fractionPart text with
  | case1 rest =>
      have hrun := run_taken_append Char.isDigit rest hdigit
      show fractionPart ('.' :: ((Reading.run Char.isDigit rest).taken ++ more)) = _
      simp only [fractionPart, hrun]
      rfl
  | case2 =>
      show fractionPart more = _
      unfold fractionPart
      split
      next => cases hpoint
      next => rfl

theorem head?_fractionPart_taken_append (text more : List Char) {p : Char → Bool}
    (hpoint : p '.' = false) (hmore : more.head?.any p = false) :
    ((fractionPart text).taken ++ more).head?.any p = false := by
  fun_cases fractionPart text with
  | case1 rest => exact hpoint
  | case2 => exact hmore

theorem decimalLiteral_taken (text : List Char) :
    (decimalLiteral (decimalLiteral text).taken).value = (decimalLiteral text).value := by
  have hdigit := head?_exponentPart_taken
    (fractionPart (Reading.run Char.isDigit text).rest).rest (p := Char.isDigit) rfl rfl
  have hpoint := head?_exponentPart_taken
    (fractionPart (Reading.run Char.isDigit text).rest).rest (p := (· = '.')) rfl rfl
  have hwhole := run_taken_append Char.isDigit text
    (head?_fractionPart_taken_append (Reading.run Char.isDigit text).rest _ rfl hdigit)
  simp only [decimalLiteral, hwhole, fractionPart_taken_append _ hdigit hpoint,
    exponentPart_taken]

namespace Scan

/-!
## Scans
-/

/-- The value of hexadecimal digits, if there is one of at most 64 bits. -/
def hexValue (digits : List Char) : Option Binary64 :=
  if !digits.isEmpty && decide (ofDigits 16 digits < Nat.pow 2 64) then
    some (Binary64.ofNat (ofDigits 16 digits))
  else none

def hexNumber : Scan (Option Binary64) := do
  let (_, digits) ← sliced 2 do
    let _ ← advance
    let _ ← advance
    skip isHexDigit
  return hexValue digits

def fraction : Scan Unit := do
  if (← peek) = some '.' then
    let _ ← advance
    skip Char.isDigit

/-- Before a mark of an exponent: whether digits are behind it, after a sign or at once. -/
def exponentFollows : Scan Bool := do
  match ← peekNext with
  | some '+' | some '-' =>
      let behind ← attemptAhead 2
      return (behind.bind List.head?).any Char.isDigit
  | some c => return c.isDigit
  | none => return false

def sign : Scan Unit := do
  match ← peek with
  | some '+' | some '-' =>
      let _ ← advance
      return
  | _ => return

def exponent : Scan Unit := do
  if (← peek).any (fun mark => mark = 'e' || mark = 'E') then
    if ← exponentFollows then
      let _ ← advance
      sign
      skip Char.isDigit

def decimalNumber : Scan (Option Binary64) := do
  let (_, lexeme) ← sliced 0 do
    skip Char.isDigit
    fraction
    exponent
  if (← peek).any isWordStart then
    return none
  else
    return some (decimalLiteral lexeme).value.toBinary64

def number : Scan Item := do
  let (value, lexeme) ← sliced 0 do
    if (← peek) = some '0' && (← peekNext).any (fun c => c = 'x' || c = 'X') then
      hexNumber
    else
      decimalNumber
  return match value with
    | some value => .token (.number value)
    | none => .fault (.invalidNumber (String.ofList lexeme))

end Scan

namespace Follows

variable {text : List Char}

theorem hexNumber {x : Char} (hx : isLineTerminator x = false) (hsize : x.utf8Size = 1)
    (text : List Char) :
    Follows Scan.hexNumber ('0' :: x :: text) ((hexLiteralTail text).extend ['0', x]) false := by
  unfold Scan.hexNumber
  have hdigits : Follows (do
      let _ ← Scan.advance
      let _ ← Scan.advance
      Scan.skip isHexDigit) ('0' :: x :: text)
      ((Reading.run isHexDigit text).extend ['0', x]) false :=
    advanceThen (by decide) (advanceThen hx (skip inline_isHexDigit text))
  have hlead : String.utf8Len ['0', x] = 2 := by
    simp [hsize]
    rfl
  exact (hdigits.sliced rfl hlead).returning _

theorem fraction (text : List Char) :
    Follows Scan.fraction text ((fractionPart text).map fun _ => ()) false := by
  unfold Scan.fraction
  apply peekThen
  fun_cases fractionPart text with
  | case1 more =>
      rw [List.head?_cons, if_pos rfl]
      exact advanceThen (c := '.') (by decide) (skip inline_isDigit more)
  | case2 _ hpoint =>
      rw [if_neg fun h => hpoint _ (eq_cons_drop_of_head? h)]
      exact pure () text

theorem sign (text : List Char) :
    Follows Scan.sign text ((signPart text).map fun _ => ()) false := by
  unfold Scan.sign
  apply peekThen
  fun_cases signPart text with
  | case1 more => exact advanceThen (c := '+') (by decide) (pure () more)
  | case2 more => exact advanceThen (c := '-') (by decide) (pure () more)
  | case3 _ hplus hminus =>
      split
      next h => exact absurd (eq_cons_drop_of_head? h) (hplus _)
      next h => exact absurd (eq_cons_drop_of_head? h) (hminus _)
      next => exact pure () text

theorem exponentFollows {mark : Char} (hmark : mark.utf8Size = 1) (more : List Char) :
    Follows Scan.exponentFollows (mark :: more)
      ⟨(signPart more).rest.head?.any Char.isDigit, [], mark :: more⟩ false := by
  unfold Scan.exponentFollows
  apply peekNextThen
  have hbytes : forall c : Char, c.utf8Size = 1 -> String.utf8Len [mark, c] = 2 := by
    intro c hc
    simp only [String.utf8Len_cons, String.utf8Len_nil, hmark, hc]
  fun_cases signPart more with
  | case1 rest =>
      exact attemptAheadThen (l := [mark, '+']) (hbytes '+' (by decide)) (pure _ _)
  | case2 rest =>
      exact attemptAheadThen (l := [mark, '-']) (hbytes '-' (by decide)) (pure _ _)
  | case3 _ hplus hminus =>
      rw [List.tail_cons]
      split
      next h => exact absurd (eq_cons_drop_of_head? h) (hplus _)
      next h => exact absurd (eq_cons_drop_of_head? h) (hminus _)
      next c _ _ h =>
        rw [h]
        exact pure _ _
      next h =>
        rw [h]
        exact pure _ _

theorem head?_run (p : Char → Bool) (text : List Char) :
    text.head?.any p = !(Reading.run p text).taken.isEmpty := by
  cases text with
  | nil => rfl
  | cons c text =>
      cases hc : p c with
      | false => simp [Reading.run, hc]
      | true => simp [Reading.run, hc]

theorem exponent (text : List Char) :
    Follows Scan.exponent text ((exponentPart text).map fun _ => ()) false := by
  unfold Scan.exponent
  apply peekThen
  cases text with
  | nil => exact pure () []
  | cons mark more =>
      cases hmark : (mark = 'e' || mark = 'E') with
      | false =>
          rw [List.head?_cons, Option.any_some, if_neg (by simp [hmark])]
          simp only [exponentPart, hmark, Bool.false_and, Bool.false_eq_true, if_false]
          exact pure () (mark :: more)
      | true =>
          have hchar : mark.utf8Size = 1 ∧ isLineTerminator mark = false := by
            rw [Bool.or_eq_true, decide_eq_true_eq, decide_eq_true_eq] at hmark
            rcases hmark with rfl | rfl <;> decide
          have hfollows := exponentFollows hchar.1 more
          rw [head?_run] at hfollows
          rw [List.head?_cons, Option.any_some, if_pos hmark]
          cases hdigits : (Reading.run Char.isDigit (signPart more).rest).taken with
          | nil =>
              rw [hdigits] at hfollows
              simp only [exponentPart, hdigits, List.isEmpty_nil, Bool.not_true, Bool.and_false,
                Bool.false_eq_true, if_false]
              exact hfollows.andThen (pure () (mark :: more))
          | cons c digits =>
              have hmarked : Marked mark more c digits := ⟨hmark, hdigits⟩
              rw [hdigits] at hfollows
              rw [hmarked.exponentPart, ← hdigits]
              apply hfollows.andThen
              apply advanceThen hchar.2
              exact (sign more).andThen (skip inline_isDigit (signPart more).rest)

theorem decimalNumber (text : List Char) :
    Follows Scan.decimalNumber text
      ((decimalLiteral text).map fun d =>
        if startsWord (decimalLiteral text).rest then none else some d.toBinary64) false := by
  have hlexeme : Follows (do
      Scan.skip Char.isDigit
      Scan.fraction
      Scan.exponent) text ((decimalLiteral text).map fun _ => ()) false :=
    (skip inline_isDigit text).andThen ((fraction _).andThen (exponent _))
  have hsliced := hlexeme.sliced (l := []) rfl rfl
  have hword : (decimalLiteral text).rest.head?.any isWordStart =
      startsWord (decimalLiteral text).rest := by
    cases (decimalLiteral text).rest <;> rfl
  have hvalue : Follows (do
      if (← Scan.peek).any isWordStart then
        return none
      else
        return some (decimalLiteral (decimalLiteral text).taken).value.toBinary64)
      (decimalLiteral text).rest
      ⟨if startsWord (decimalLiteral text).rest then none
        else some (decimalLiteral text).value.toBinary64, [], (decimalLiteral text).rest⟩
      false := by
    apply peekThen
    rw [hword, decimalLiteral_taken]
    split
    · exact pure none _
    · exact pure _ _
  apply (hsliced.andThen hvalue).of_eq
  simp [Reading.map]

theorem number (text : List Char) : Follows Scan.number text (numberItem text) false := by
  unfold Scan.number numberItem
  have hliteral : Follows (do
      if (← Scan.peek) = some '0' && (← Scan.peekNext).any (fun c => c = 'x' || c = 'X') then
        Scan.hexNumber
      else
        Scan.decimalNumber) text (numericLiteral text) false := by
    apply peekThen
    apply peekNextThen
    fun_cases numericLiteral text with
    | case1 more => exact hexNumber (x := 'x') (by decide) (by decide) more
    | case2 more => exact hexNumber (x := 'X') (by decide) (by decide) more
    | case3 _ hx hX =>
        rw [if_neg]
        · exact decimalNumber text
        · simp only [Bool.and_eq_true, decide_eq_true_eq, Option.any_eq_true, Bool.or_eq_true]
          rintro ⟨hzero, c, hnext, hmark⟩
          have htail := eq_cons_drop_of_head? hnext
          rw [← List.drop_one] at htail
          have htext := eq_cons_drop_of_head? hzero
          rw [htail] at htext
          rcases hmark with rfl | rfl
          · exact hx _ htext
          · exact hX _ htext
  exact (hliteral.sliced (l := []) rfl rfl).returning _

end Follows

end Token
end ScriptHints
