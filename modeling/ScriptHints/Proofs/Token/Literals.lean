import ScriptHints.Proofs.Token.Quoted

/-!
# Literals

The inside of a string literal is told here by its items: plain characters, and backslashes with
what they escape. What an item is depends on what stands behind it only where digits may follow a
letter, and where a line feed may follow a carriage return. Behind a carriage return up to two line
feeds continue the literal.

A slash begins a regular expression unless the token before it ends an operand. A parenthesis does,
whatever it closes, so that no regular expression stands right behind the header of a statement.
-/

namespace ScriptHints
namespace Token

open Text

def escapeLetters : List (Char × Char) :=
  [('n', '\n'), ('r', '\r'), ('t', '\t'), ('b', '\x08'), ('f', '\x0c'), ('v', '\x0b'),
    ('0', '\x00')]

def escapeDigits : List (Char × Nat) :=
  [('x', 2), ('u', 4)]

/-- What stands behind a backslash and in front of a text, and the characters that it stands for. -/
inductive Escaped (rest : List Char) : List Char → List Char → Prop where
  | letter {e c : Char} :
      (e, c) ∈ escapeLetters -> Escaped rest [e] [c]
  | digits {e c : Char} {count : Nat} {digits : List Char} :
      (e, count) ∈ escapeDigits -> hexChar? count digits = some c -> Escaped rest (e :: digits) [c]
  | noDigits {e : Char} {count : Nat} :
      (e, count) ∈ escapeDigits -> hexChar? count (rest.take count) = none -> Escaped rest [e] [e]
  | other {e : Char} :
      e ∉ escapeLetters.map Prod.fst -> e ∉ escapeDigits.map Prod.fst ->
      isLineTerminator e = false -> Escaped rest [e] [e]
  | lineEnd {e : Char} :
      isLineTerminator e = true -> e ≠ '\r' -> Escaped rest [e] []
  | carriageReturn :
      rest.head? ≠ some '\n' -> Escaped rest ['\r'] []
  | lineFeed :
      rest.head? ≠ some '\n' -> Escaped rest ['\r', '\n'] []
  | twoLineFeeds :
      Escaped rest ['\r', '\n', '\n'] []

/-- The items inside of a literal, in front of a text, and the value that they make up. -/
inductive StringItems (quote : Char) (rest : List Char) : List Char → List Char → Prop where
  | nil : StringItems quote rest [] []
  | plain {c : Char} {text value : List Char} :
      c ≠ quote -> c ≠ '\\' -> isLineTerminator c = false -> StringItems quote rest text value ->
      StringItems quote rest (c :: text) (c :: value)
  | escaped {piece decoded text value : List Char} :
      Escaped (text ++ rest) piece decoded -> StringItems quote rest text value ->
      StringItems quote rest ('\\' :: piece ++ text) (decoded ++ value)

/-- No literal goes on here, and none is closed: the line or the text ends. -/
inductive Unclosed : List Char → Prop where
  | nil : Unclosed []
  | backslash : Unclosed ['\\']
  | lineEnd {c : Char} (text : List Char) : isLineTerminator c = true -> Unclosed (c :: text)

/-!
## Escapes
-/

theorem escaped_continuation {e : Char} (hline : isLineTerminator e = true) (text : List Char) :
    Escaped (continuation e text).rest (continuation e text).taken (continuation e text).value := by
  by_cases hreturn : e = '\r'
  · subst hreturn
    by_cases hfirst : text.head? = some '\n'
    · rw [eq_cons_drop_of_head? hfirst]
      generalize text.drop 1 = more
      by_cases hsecond : more.head? = some '\n'
      · rw [eq_cons_drop_of_head? hsecond]
        exact .twoLineFeeds
      · rw [continuation_of_two hsecond]
        exact .lineFeed hsecond
    · rw [continuation_of_one fun _ => hfirst]
      exact .carriageReturn hfirst
  · rw [continuation_of_one fun heq => absurd heq hreturn]
    exact .lineEnd hline hreturn

theorem escaped_hexEscape {e : Char} {count : Nat} (h : (e, count) ∈ escapeDigits)
    (text : List Char) :
    Escaped (hexEscape count e text).rest (e :: (hexEscape count e text).taken)
      (hexEscape count e text).value := by
  rw [hexEscape_eq]
  cases hchar : hexChar? count (text.take count) with
  | none => exact .noDigits h hchar
  | some c => exact .digits h hchar

theorem escaped_escape (e : Char) (text : List Char) :
    Escaped (escape e text).rest (escape e text).taken (escape e text).value := by
  unfold escape
  split
  case h_8 => exact escaped_hexEscape (by decide) text
  case h_9 => exact escaped_hexEscape (by decide) text
  case h_10 hn hr ht hb hf hv h0 hx hu =>
    split
    next hline => exact escaped_continuation hline text
    next hline =>
      refine .other ?_ ?_ (Bool.eq_false_iff.mpr hline)
      · simpa [escapeLetters] using ⟨hn, hr, ht, hb, hf, hv, h0⟩
      · simpa [escapeDigits] using ⟨hx, hu⟩
  all_goals exact .letter (by decide)

theorem escape_of_letter {e c : Char} (h : (e, c) ∈ escapeLetters) (text : List Char) :
    escape e text = ⟨[c], [e], text⟩ := by
  simp only [escapeLetters, List.mem_cons, Prod.mk.injEq, List.not_mem_nil, or_false] at h
  rcases h with ⟨rfl, rfl⟩ | ⟨rfl, rfl⟩ | ⟨rfl, rfl⟩ | ⟨rfl, rfl⟩ | ⟨rfl, rfl⟩ | ⟨rfl, rfl⟩ |
    ⟨rfl, rfl⟩ <;>
    rfl

theorem escape_of_digits {e : Char} {count : Nat} (h : (e, count) ∈ escapeDigits)
    (text : List Char) : escape e text = (hexEscape count e text).extend [e] := by
  simp only [escapeDigits, List.mem_cons, Prod.mk.injEq, List.not_mem_nil, or_false] at h
  rcases h with ⟨rfl, rfl⟩ | ⟨rfl, rfl⟩ <;> rfl

theorem escape_of_other {e : Char} (hletter : e ∉ escapeLetters.map Prod.fst)
    (hdigits : e ∉ escapeDigits.map Prod.fst) (hline : isLineTerminator e = false)
    (text : List Char) : escape e text = ⟨[e], [e], text⟩ := by
  unfold escape
  split
  case h_8 | h_9 => exact absurd (by decide) hdigits
  case h_10 => rw [if_neg (by rw [hline]; exact Bool.noConfusion)]
  all_goals exact absurd (by decide) hletter

theorem Escaped.escape_eq {rest piece decoded : List Char} (h : Escaped rest piece decoded) :
    exists e more, piece = e :: more ∧ escape e (more ++ rest) = ⟨decoded, piece, rest⟩ := by
  cases h with
  | letter h => exact ⟨_, [], rfl, escape_of_letter h rest⟩
  | @digits e c count digits h hchar =>
      refine ⟨e, digits, rfl, ?_⟩
      have hlength : digits.length = count := by
        unfold hexChar? at hchar
        split at hchar
        next hvalid => exact of_decide_eq_true (Bool.and_eq_true_iff.mp hvalid).1
        next => cases hchar
      rw [escape_of_digits h, hexEscape_eq, List.take_left' hlength, List.drop_left' hlength, hchar]
      rfl
  | @noDigits e count h hchar =>
      refine ⟨e, [], rfl, ?_⟩
      rw [List.nil_append, escape_of_digits h, hexEscape_eq, hchar]
      rfl
  | other hletter hdigits hline => exact ⟨_, [], rfl, escape_of_other hletter hdigits hline rest⟩
  | lineEnd hline hreturn =>
      refine ⟨_, [], rfl, ?_⟩
      rw [List.nil_append, escape_of_terminator hline, continuation_of_one fun heq =>
        absurd heq hreturn]
  | carriageReturn hfeed =>
      refine ⟨_, [], rfl, ?_⟩
      rw [List.nil_append, escape_of_terminator rfl, continuation_of_one fun _ => hfeed]
  | lineFeed hfeed =>
      refine ⟨_, ['\n'], rfl, ?_⟩
      exact (escape_of_terminator rfl _).trans (continuation_of_two hfeed)
  | twoLineFeeds => exact ⟨_, ['\n', '\n'], rfl, rfl⟩

/-!
## String literals
-/

/-- The scanner passes the items and goes on with what is behind them. -/
theorem StringItems.stringTail_eq {quote : Char} (hquote : '\\' ≠ quote)
    {rest text value : List Char} (h : StringItems quote rest text value) :
    stringTail quote (text ++ rest) =
      ((stringTail quote rest).map (·.map (value ++ ·))).extend text := by
  induction h with
  | nil => simp [Reading.map, Reading.extend]
  | @plain c text value hother hslash hline _ ih =>
      have hline : ¬ isLineTerminator c = true := by
        rw [hline]
        exact Bool.noConfusion
      rw [List.cons_append, stringTail_plain hother hslash hline, ih]
      simp [Reading.map, Reading.extend, Function.comp_def]
  | @escaped piece decoded text value hpiece _ ih =>
      rcases hpiece.escape_eq with ⟨e, more, rfl, hescape⟩
      show stringTail quote ('\\' :: e :: (more ++ text ++ rest)) = _
      rw [List.append_assoc, stringTail_escape hquote, hescape, ih]
      simp [Reading.map, Reading.extend, Function.comp_def]

/-- Behind the items in front of a text, it is closed or does not go on. -/
theorem exists_items (quote : Char) (text : List Char) :
    exists inside value rest, text = inside ++ rest ∧ StringItems quote rest inside value ∧
      (rest.head? = some quote ∨ Unclosed rest) := by
  fun_induction stringTail quote text with
  | case1 => exact ⟨[], [], [], rfl, .nil, .inr .nil⟩
  | case2 text => exact ⟨[], [], quote :: text, rfl, .nil, .inl rfl⟩
  | case3 => exact ⟨[], [], ['\\'], rfl, .nil, .inr .backslash⟩
  | case4 e more piece _ ih =>
      rcases ih with ⟨inside, value, rest, hrest, hitems, hend⟩
      have hpiece := escaped_escape e more
      have hsplits : piece.taken ++ piece.rest = e :: more := splits_escape e more
      rw [hrest] at hsplits
      rw [show (escape e more).rest = inside ++ rest from hrest] at hpiece
      refine ⟨'\\' :: piece.taken ++ inside, piece.value ++ value, rest, ?_,
        .escaped hpiece hitems, hend⟩
      rw [← hsplits]
      simp
  | case5 c text _ _ hline => exact ⟨[], [], c :: text, rfl, .nil, .inr (.lineEnd text hline)⟩
  | case6 c text hother hslash hline ih =>
      rcases ih with ⟨inside, value, rest, rfl, hitems, hend⟩
      exact ⟨c :: inside, c :: value, rest, rfl,
        .plain hother hslash (Bool.eq_false_iff.mpr hline) hitems, hend⟩

theorem Unclosed.stringTail_eq {quote : Char} (hquote : quote = '"' ∨ quote = '\'')
    {rest : List Char} (h : Unclosed rest) : (stringTail quote rest).value = none := by
  cases h with
  | nil => rw [stringTail.eq_def]
  | backslash =>
      rw [stringTail.eq_def]
      rcases hquote with rfl | rfl <;> rfl
  | @lineEnd c text hline =>
      have hplain : c ≠ quote ∧ c ≠ '\\' := by
        constructor <;> rintro rfl
        · rcases hquote with rfl | rfl <;> cases hline
        · cases hline
      rw [stringTail.eq_def]
      dsimp only
      rw [if_neg hplain.1, if_neg hplain.2, if_pos hline]

theorem exists_items_of_value {quote : Char} (hquote : quote = '"' ∨ quote = '\'')
    {text value : List Char} (h : (stringTail quote text).value = some value) :
    exists inside behind, stringTail quote text = ⟨some value, inside ++ [quote], behind⟩ ∧
      StringItems quote (quote :: behind) inside value := by
  have hbackslash : '\\' ≠ quote := by
    rcases hquote with rfl | rfl <;> decide
  rcases exists_items quote text with ⟨inside, value', rest, rfl, hitems, hclosed | hunclosed⟩
  · rw [eq_cons_drop_of_head? hclosed] at h hitems ⊢
    generalize rest.drop 1 = behind at h hitems ⊢
    rw [hitems.stringTail_eq hbackslash, stringTail_quote] at h ⊢
    simp only [Reading.extend, Reading.map, Option.map_some, List.append_nil,
      Option.some.injEq] at h
    subst h
    exact ⟨inside, behind, by simp [Reading.extend, Reading.map], hitems⟩
  · rw [hitems.stringTail_eq hbackslash] at h
    simp [Reading.extend, Reading.map, hunclosed.stringTail_eq hquote] at h

/-!
## Texts
-/

namespace Lexer

variable {l m : Lexer} {ts : List Token}

theorem Passes.exists_item (h : l.Passes ts m) {t : Token} (ht : t ∈ ts) :
    exists afterOperand c cs rest,
      item afterOperand c (cs ++ rest) = ⟨.token t.kind, c :: cs, rest⟩ ∧
        t.lexeme.toList = c :: cs := by
  rcases List.append_of_mem ht with ⟨before, behind, rfl⟩
  rcases h.split with ⟨k, _, hbehind⟩
  rcases hbehind.uncons with ⟨n, kind, c, cs, rest, _, _, heq, rfl, _⟩
  exact ⟨n.afterOperand, c, cs, rest, heq, String.toList_ofList⟩

theorem Passes.run_error (h : l.Passes ts m) {e : LexicalError} (herror : m.run.1 = .error e) :
    l.run.1 = .error e := by
  induction h with
  | refl => exact herror
  | trivia htext heq _ ih =>
      rw [run_of_trivia htext (by rw [heq]), heq]
      exact ih herror
  | @token l m c cs rest ts kind htext heq _ ih =>
      have hvalue : (item l.afterOperand c (cs ++ rest)).value = .token kind := by rw [heq]
      rw [run_of_token htext hvalue, heq, ih herror]
      rfl

end Lexer

/-- Every string token is made of items between two quotes, and has their value. -/
theorem tokensOf_string {text : String} {stream : TokenStream} (h : tokensOf text = .ok stream)
    {t : Token} (ht : t ∈ stream.body.toList) {value : String} (hkind : t.kind = .string value) :
    exists quote inside behind, (quote = '"' ∨ quote = '\'') ∧
      t.lexeme.toList = quote :: inside ++ [quote] ∧
      StringItems quote (quote :: behind) inside value.toList := by
  rcases tokensOf_ok_iff.mp h with ⟨m, hpasses, _, _⟩
  rcases hpasses.exists_item ht with ⟨afterOperand, c, cs, rest, heq, hlexeme⟩
  rw [hkind] at heq
  have hvalue : (item afterOperand c (cs ++ rest)).value = .token (.string value) := by rw [heq]
  have hscanned := item_scanned hvalue
  generalize hkind' : TokenKind.string value = kind at hscanned
  generalize hread : item afterOperand c (cs ++ rest) = read at hscanned
  cases hscanned with
  | string value' hquote =>
      cases hkind'
      rw [item_of_quote hquote] at heq
      unfold stringItem at heq
      cases htail : (stringTail c (cs ++ rest)).value with
      | none => simp [Reading.extend, Reading.map, htail] at heq
      | some inner =>
          rcases exists_items_of_value hquote htail with ⟨inside, behind, hread, hitems⟩
          rw [hread] at heq
          simp only [Reading.extend, Reading.map, Reading.mk.injEq, Item.token.injEq,
            TokenKind.string.injEq] at heq
          rcases heq with ⟨hinner, htaken, _⟩
          refine ⟨c, inside, behind, hquote, ?_, ?_⟩
          · rw [hlexeme, ← htaken]
            rfl
          · rw [← hinner, String.toList_ofList]
            exact hitems
  | regExp | number | punctuator => cases hkind'
  | word kind hword =>
      subst hkind'
      cases hword

/-- Where the line or the text ends behind the items of a literal, the literal is not closed. -/
theorem tokensOf_unclosed {text : String} {ts : List Token} {l : Lexer}
    (h : (Lexer.ofText text).Passes ts l) {quote : Char} (hquote : quote = '"' ∨ quote = '\'')
    {inside value rest : List Char} (hrest : l.rest = quote :: (inside ++ rest))
    (hitems : StringItems quote rest inside value) (hunclosed : Unclosed rest) :
    tokensOf text = .error { fault := .unterminatedString, place := l.place } := by
  have hbackslash : '\\' ≠ quote := by
    rcases hquote with rfl | rfl <;> decide
  have hvalue : (item l.afterOperand quote (inside ++ rest)).value =
    .fault .unterminatedString := by
    rw [item_of_quote hquote]
    unfold stringItem
    rw [hitems.stringTail_eq hbackslash]
    simp [Reading.extend, Reading.map, hunclosed.stringTail_eq hquote]
  show Except.map _ (Lexer.ofText text).run.1 = _
  rw [h.run_error (Lexer.run_of_fault hrest hvalue)]
  rfl

theorem tokensOf_unclosed_lineEnd :
    tokensOf "'a\n'" = .error { fault := .unterminatedString, place := Place.start } :=
  tokensOf_unclosed (.refl _) (.inr rfl) rfl
    (.plain (c := 'a') (by decide) (by decide) (by decide) .nil) (.lineEnd ['\''] (by decide))

/-!
## Regular expressions
-/

def TokenKind.isRegExp : TokenKind → Bool
  | .regExp _ _ => true
  | _ => false

theorem Lexer.Passes.afterOperand_eq {l m : Lexer} {ts : List Token} (h : l.Passes ts m) :
    m.afterOperand = (ts.getLast?.map fun t => t.kind.endsOperand).getD l.afterOperand := by
  induction h with
  | refl => rfl
  | trivia _ _ _ ih => exact ih
  | @token l m c cs rest ts kind _ _ _ ih =>
      rw [ih]
      cases ts with
      | nil => rfl
      | cons t ts => rw [List.getLast?_cons_cons, List.getLast?_cons]; rfl

theorem afterOperand_of_regExp {afterOperand : Bool} {c : Char} {text : List Char}
    {kind : TokenKind}
    (h : (item afterOperand c text).value = .token kind) (hkind : kind.isRegExp = true) :
    afterOperand = false := by
  have hscanned := item_scanned h
  generalize item afterOperand c text = read at hscanned
  cases hscanned with
  | regExp _ _ _ hafter _ _ => exact hafter
  | string | number | punctuator => cases hkind
  | word kind hword =>
      cases kind with
      | regExp => cases hword
      | _ => cases hkind

theorem afterOperand_of_isSlash {afterOperand : Bool} {c : Char} {text : List Char}
    {kind : TokenKind}
    (h : (item afterOperand c text).value = .token kind) (hkind : kind.isSlash = true) :
    afterOperand = true := by
  have hscanned := item_scanned h
  generalize item afterOperand c text = read at h hscanned
  cases hscanned with
  | regExp | string | number => cases hkind
  | word kind hword =>
      cases kind with
      | punctuator => cases hword
      | _ => cases hkind
  | punctuator mark hslash _ =>
      refine (hslash ?_).1
      unfold punctuatorItem at h
      cases hlongest : Punctuator.longest? (c :: text) with
      | none =>
          rw [hlongest] at h
          cases h
      | some found =>
          rw [hlongest] at h
          cases h
          rcases Punctuator.longest?_isPrefix hlongest with ⟨more, hwhole⟩
          simp only [TokenKind.isSlash, Bool.or_eq_true, decide_eq_true_eq,
            TokenKind.punctuator.injEq] at hkind
          rcases hkind with rfl | rfl <;> exact (List.cons.inj hwhole).1.symm

/-- A slash begins a regular expression just where no token before it ends an operand. -/
theorem tokensOf_slash {text : String} {stream : TokenStream} (h : tokensOf text = .ok stream)
    {i : Nat} (hi : i < stream.size) :
    ((stream.get i).kind.isRegExp = true ->
      0 < i -> (stream.get (i - 1)).kind.endsOperand = false) ∧
    ((stream.get i).kind.isSlash = true ->
      0 < i ∧ (stream.get (i - 1)).kind.endsOperand = true) := by
  have hi : i < stream.body.toList.length := hi
  rcases tokensOf_ok_iff.mp h with ⟨m, hpasses, _, _⟩
  rw [← List.take_append_drop i stream.body.toList, List.drop_eq_getElem_cons hi,
    stream.getElem_body] at hpasses
  rcases hpasses.split with ⟨k, hbefore, hbehind⟩
  rcases hbehind.uncons with ⟨n, kind, c, cs, rest, hskip, _, heq, hfirst, _⟩
  have hafter := (hbefore.trans hskip).afterOperand_eq
  rw [List.append_nil] at hafter
  have hvalue : (item n.afterOperand c (cs ++ rest)).value = .token (stream.get i).kind := by
    rw [heq, hfirst]
    rfl
  have hlast (hpos : 0 < i) : n.afterOperand = (stream.get (i - 1)).kind.endsOperand := by
    rw [hafter, List.getLast?_take, if_neg (by omega), List.getElem?_eq_getElem (by omega),
      stream.getElem_body]
    rfl
  constructor
  · intro hkind hpos
    rw [← hlast hpos]
    exact afterOperand_of_regExp hvalue hkind
  · intro hkind
    have htrue := afterOperand_of_isSlash hvalue hkind
    have hpos : 0 < i := by
      refine Nat.pos_of_ne_zero fun hzero => ?_
      rw [hafter, hzero] at htrue
      cases htrue
    rw [← hlast hpos]
    exact ⟨hpos, htrue⟩

def slashedHeader : TokenStream :=
  { body := #[⟨.keyword .ifWord, "if", ⟨1, 1, 0⟩, false⟩,
      ⟨.punctuator .openParen, "(", ⟨1, 3, 2⟩, false⟩, ⟨.identifier, "a", ⟨1, 4, 3⟩, false⟩,
      ⟨.punctuator .closeParen, ")", ⟨1, 5, 4⟩, false⟩,
      ⟨.punctuator .slash, "/", ⟨1, 6, 5⟩, false⟩, ⟨.identifier, "b", ⟨1, 7, 6⟩, false⟩,
      ⟨.punctuator .slash, "/", ⟨1, 8, 7⟩, false⟩]
    stop := ⟨.endOfText, "", ⟨1, 9, 8⟩, false⟩ }

theorem tokensOf_slashedHeader : tokensOf "if(a)/b/" = .ok slashedHeader := by
  cbv

theorem tokensOf_slash_slashedHeader :
    ((slashedHeader.get 4).kind.isRegExp = true ->
      0 < 4 -> (slashedHeader.get (4 - 1)).kind.endsOperand = false) ∧
    ((slashedHeader.get 4).kind.isSlash = true ->
      0 < 4 ∧ (slashedHeader.get (4 - 1)).kind.endsOperand = true) :=
  tokensOf_slash tokensOf_slashedHeader (by decide)

end Token
end ScriptHints
