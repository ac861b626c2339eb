import ScriptHints.Proofs.Token.Scanners

/-!
# Items are read locally

An item depends on its own characters and on the first one behind it. The same characters are
read as the same item in front of any text that begins like the one behind them, and at the end
of a text. A token is also read in front of a blank and in front of a semicolon.
-/

namespace ScriptHints
namespace Token

open Text Number

/-!
## The first character of an item
-/

theorem isWordStart_plain {c : Char} (h : isWordStart c = true) :
    isScriptBlank c = false ∧ isLineTerminator c = false ∧ c ≠ '/' ∧ c ≠ '"' ∧ c ≠ '\'' ∧
      c.isDigit = false ∧ c ≠ '.' := by
  have hnot (d : Char) (hd : isWordStart d = false) : c ≠ d := by
    intro heq
    rw [heq, hd] at h
    cases h
  have h160 := hnot '\u00a0' (by decide +kernel)
  have h65279 := hnot '\ufeff' (by decide +kernel)
  have h8232 := hnot '\u2028' (by decide +kernel)
  have h8233 := hnot '\u2029' (by decide +kernel)
  refine ⟨?_, ?_, hnot _ (by decide), hnot _ (by decide), hnot _ (by decide), ?_,
    hnot _ (by decide)⟩
  · simp [isScriptBlank, h160, h65279, hnot ' ' (by decide), hnot '\t' (by decide),
      hnot '\x0b' (by decide), hnot '\x0c' (by decide)]
  · simp [isLineTerminator, h8232, h8233, hnot '\n' (by decide), hnot '\r' (by decide)]
  · cases hdigit : c.isDigit with
    | false => rfl
    | true =>
        have hrange : 48 ≤ c.val.toNat ∧ c.val.toNat ≤ 57 := by
          simpa [Char.isDigit, UInt32.le_iff_toNat_le] using hdigit
        have halpha : isAlphabetic c = false := by
          have hascii : c.toNat < 0x80 := Nat.lt_of_le_of_lt hrange.2 (by decide)
          rw [isAlphabetic_of_ascii c hascii]
          cases hletter : c.isAlpha with
          | false => rfl
          | true =>
              delta Char.isAlpha Char.isUpper Char.isLower at hletter
              simp only [Bool.or_eq_true, Bool.and_eq_true, decide_eq_true_eq, ge_iff_le,
                UInt32.le_iff_toNat_le] at hletter
              change (65 ≤ c.val.toNat ∧ c.val.toNat ≤ 90) ∨
                (97 ≤ c.val.toNat ∧ c.val.toNat ≤ 122) at hletter
              omega
        simp only [isWordStart, halpha, Bool.or_false, Bool.or_eq_true, decide_eq_true_eq] at h
        rcases h with h | h
        · rw [h] at hdigit
          cases hdigit
        · rw [h] at hdigit
          cases hdigit

theorem item_of_wordStart {c : Char} (h : isWordStart c = true) (afterOperand : Bool)
    (text : List Char) : item afterOperand c text = wordItem c text := by
  rcases isWordStart_plain h with ⟨hblank, hterminator, hslash, hdouble, hsingle, hdigit, hpoint⟩
  simp [item, startsNumber, hblank, hterminator, hslash, hdouble, hsingle, hdigit, hpoint, h]

theorem item_of_quote {c : Char} (h : c = '"' ∨ c = '\'') (afterOperand : Bool)
    (text : List Char) : item afterOperand c text = stringItem c text := by
  rcases h with h | h
  · subst h
    simp [item, isScriptBlank, isLineTerminator]
  · subst h
    simp [item, isScriptBlank, isLineTerminator]

theorem startsNumber_plain {c : Char} {text : List Char} (h : startsNumber c text = true) :
    isScriptBlank c = false ∧ isLineTerminator c = false ∧ c ≠ '/' ∧ c ≠ '"' ∧ c ≠ '\'' := by
  have hnot (d : Char) (hd : d.isDigit = false) (hpoint : d ≠ '.') : c ≠ d := by
    intro heq
    subst heq
    simp [startsNumber, hd, hpoint] at h
  refine ⟨?_, ?_, hnot _ (by decide) (by decide), hnot _ (by decide) (by decide),
    hnot _ (by decide) (by decide)⟩
  · simp [isScriptBlank, hnot ' ' (by decide) (by decide), hnot '\t' (by decide) (by decide),
      hnot '\x0b' (by decide) (by decide), hnot '\x0c' (by decide) (by decide),
      hnot '\u00a0' (by decide) (by decide), hnot '\ufeff' (by decide) (by decide)]
  · simp [isLineTerminator, hnot '\n' (by decide) (by decide), hnot '\r' (by decide) (by decide),
      hnot '\u2028' (by decide) (by decide), hnot '\u2029' (by decide) (by decide)]

theorem item_of_startsNumber {c : Char} {text : List Char} (h : startsNumber c text = true)
    (afterOperand : Bool) : item afterOperand c text = numberItem (c :: text) := by
  rcases startsNumber_plain h with ⟨hblank, hterminator, hslash, hdouble, hsingle⟩
  simp [item, hblank, hterminator, hslash, hdouble, hsingle, h]

theorem item_of_slash {text : List Char} (hline : text.head? ≠ some '/')
    (hblock : text.head? ≠ some '*') : item false '/' text = regExpItem text := by
  simp [item, isScriptBlank, isLineTerminator, hline, hblock]

def TokenKind.isSlash (kind : TokenKind) : Bool :=
  kind = .punctuator .slash || kind = .punctuator .slashEqual

def TokenKind.isWord : TokenKind → Bool
  | .identifier | .boolean _ | .keyword _ => true
  | _ => false

theorem isWord_kindOfWord (word : String) : (kindOfWord word).isWord = true := by
  unfold kindOfWord
  cases Keyword.ofText? word with
  | some k => rfl
  | none =>
      by_cases htrue : word = "true"
      · simp [htrue, TokenKind.isWord]
      · by_cases hfalse : word = "false" <;> simp [htrue, hfalse, TokenKind.isWord]

/-- How a token is read: its kind tells which of the scanners takes its characters. -/
inductive Scanned (afterOperand : Bool) (c : Char) (text : List Char) :
    TokenKind → Reading Item → Prop where
  | regExp (pattern flags : String) :
      c = '/' -> afterOperand = false -> text.head? ≠ some '/' -> text.head? ≠ some '*' ->
      Scanned afterOperand c text (.regExp pattern flags) (regExpItem text)
  | string (value : String) :
      c = '"' ∨ c = '\'' ->
      Scanned afterOperand c text (.string value) (stringItem c text)
  | number (value : Number.Binary64) :
      startsNumber c text = true ->
      Scanned afterOperand c text (.number value) (numberItem (c :: text))
  | word (kind : TokenKind) :
      kind.isWord = true -> isWordStart c = true ->
      Scanned afterOperand c text kind (wordItem c text)
  | punctuator (mark : Punctuator) :
      (c = '/' -> afterOperand = true ∧ text.head? ≠ some '/' ∧ text.head? ≠ some '*') ->
      startsNumber c text = false ->
      Scanned afterOperand c text (.punctuator mark) (punctuatorItem c text)

theorem item_scanned {afterOperand : Bool} {c : Char} {text : List Char} {kind : TokenKind}
    (h : (item afterOperand c text).value = .token kind) :
    Scanned afterOperand c text kind (item afterOperand c text) := by
  unfold item at h ⊢
  by_cases hblank : isScriptBlank c = true
  · rw [if_pos hblank] at h
    cases h
  rw [if_neg hblank] at h ⊢
  by_cases hterminator : isLineTerminator c = true
  · rw [if_pos hterminator] at h
    have htrivia : (lineBreak c text).value = .trivia := by
      unfold lineBreak
      split <;> rfl
    rw [htrivia] at h
    cases h
  rw [if_neg hterminator] at h ⊢
  by_cases hline : (c = '/' && text.head? = some '/') = true
  · rw [if_pos hline] at h
    cases h
  rw [if_neg hline] at h ⊢
  by_cases hblock : (c = '/' && text.head? = some '*') = true
  · rw [if_pos hblock] at h
    simp only [blockCommentItem, Reading.extend, Reading.map] at h
    split at h <;> cases h
  rw [if_neg hblock] at h ⊢
  simp only [Bool.and_eq_true, decide_eq_true_eq] at hline hblock
  by_cases hslash : (c = '/' && !afterOperand) = true
  · rw [if_pos hslash] at h ⊢
    simp only [Bool.and_eq_true, decide_eq_true_eq, Bool.not_eq_true'] at hslash
    simp only [regExpItem, Reading.extend, Reading.map] at h
    cases hpattern : (regExpTail text).value with
    | none => simp [hpattern] at h
    | some parts =>
        simp only [hpattern, Item.token.injEq] at h
        rw [← h]
        exact .regExp _ _ hslash.1 hslash.2 (fun heq => hline ⟨hslash.1, heq⟩)
          (fun heq => hblock ⟨hslash.1, heq⟩)
  rw [if_neg hslash] at h ⊢
  by_cases hquote : (c = '"' || c = '\'') = true
  · rw [if_pos hquote] at h ⊢
    simp only [stringItem, Reading.extend, Reading.map] at h
    cases htail : (stringTail c text).value with
    | none => simp [htail] at h
    | some value =>
        simp only [htail, Item.token.injEq] at h
        rw [← h]
        exact .string _ (by simpa using hquote)
  rw [if_neg hquote] at h ⊢
  by_cases hnumber : startsNumber c text = true
  · rw [if_pos hnumber] at h ⊢
    simp only [numberItem, Reading.map] at h
    cases hvalue : (numericLiteral (c :: text)).value with
    | none => simp [hvalue] at h
    | some value =>
        simp only [hvalue, Item.token.injEq] at h
        rw [← h]
        exact .number value hnumber
  rw [if_neg hnumber] at h ⊢
  by_cases hword : isWordStart c = true
  · rw [if_pos hword] at h ⊢
    simp only [wordItem, Reading.map, Item.token.injEq] at h
    exact .word kind (by rw [← h]; exact isWord_kindOfWord _) hword
  rw [if_neg hword] at h ⊢
  have hpunctuator (mark : Punctuator) :
      Scanned afterOperand c text (.punctuator mark) (punctuatorItem c text) := by
    refine .punctuator mark ?_ (by simpa using hnumber)
    intro heq
    refine ⟨?_, fun hhead => hline ⟨heq, hhead⟩, fun hhead => hblock ⟨heq, hhead⟩⟩
    cases afterOperand with
    | true => rfl
    | false => simp [heq] at hslash
  unfold punctuatorItem at h
  cases hmark : Punctuator.longest? (c :: text) with
  | none => simp [hmark] at h
  | some mark =>
      simp only [hmark, Item.token.injEq] at h
      rw [← h]
      exact hpunctuator mark

/-!
## Punctuators
-/

theorem mark_plain (mark : Punctuator) {c : Char} {cs : List Char} (h : mark.chars = c :: cs) :
    isScriptBlank c = false ∧ isLineTerminator c = false ∧ c ≠ '"' ∧ c ≠ '\'' ∧
      c.isDigit = false ∧ isWordStart c = false := by
  cases mark <;> injection h with hc <;> subst hc <;> decide +kernel

theorem item_of_mark {mark : Punctuator} {c : Char} {cs : List Char} (h : mark.chars = c :: cs)
    {afterOperand : Bool} {text : List Char}
    (hslash : c = '/' -> afterOperand = true ∧ text.head? ≠ some '/' ∧ text.head? ≠ some '*')
    (hpoint : startsNumber c text = false) : item afterOperand c text = punctuatorItem c text := by
  rcases mark_plain mark h with ⟨hblank, hterminator, hdouble, hsingle, _, hword⟩
  by_cases hc : c = '/'
  · subst hc
    rcases hslash rfl with ⟨hafter, hline, hblock⟩
    simp [item, hblank, hterminator, hword, hpoint, hafter, hline, hblock]
  · simp [item, hblank, hterminator, hdouble, hsingle, hword, hpoint, hc]

namespace Punctuator

def ofChars? (chars : List Char) : Option Punctuator :=
  all.find? fun mark => mark.chars = chars

theorem ofChars?_chars (mark : Punctuator) : ofChars? mark.chars = some mark := by
  have hall : forall mark, mark ∈ all -> ofChars? mark.chars = some mark := by
    decide +kernel
  exact hall mark (mem_all mark)

theorem length_le_of_longest? {text : List Char} {mark other : Punctuator}
    (h : longest? text = some mark) (hother : other.chars <+: text) :
    other.chars.length ≤ mark.chars.length := by
  rcases List.find?_eq_some_iff_append.mp h with ⟨_, before, behind, hall, hbefore⟩
  have hsorted := all_sorted
  have hmem := mem_all other
  rw [hall] at hsorted hmem
  have hnotBefore : other ∉ before := by
    intro hin
    have hno := hbefore other hin
    rw [List.isPrefixOf_iff_prefix.mpr hother] at hno
    cases hno
  rcases List.mem_append.mp hmem with hin | hin
  · exact absurd hin hnotBefore
  · rcases List.mem_cons.mp hin with rfl | hin
    · exact Nat.le_refl _
    · exact List.rel_of_pairwise_cons (List.pairwise_append.mp hsorted).2.1 hin

theorem eq_of_chars_eq {mark other : Punctuator} (h : mark.chars = other.chars) :
    mark = other := by
  have hmark := mark.ofChars?_chars
  rw [h, other.ofChars?_chars] at hmark
  exact (Option.some.inj hmark).symm

/-- The longest punctuator at the beginning of a text is known by its length. -/
theorem longest?_eq_some {text : List Char} {mark : Punctuator} (h : mark.chars <+: text)
    (hlongest : forall other : Punctuator, other.chars <+: text ->
      other.chars.length ≤ mark.chars.length) : longest? text = some mark := by
  cases hfound : longest? text with
  | none =>
      have hno := List.find?_eq_none.mp hfound mark (mem_all mark)
      exact absurd (List.isPrefixOf_iff_prefix.mpr h) hno
  | some other =>
      have hother := longest?_isPrefix hfound
      have hlength := Nat.le_antisymm (hlongest other hother) (length_le_of_longest? hfound h)
      have hchars := List.prefix_of_prefix_length_le hother h (Nat.le_of_eq hlength)
      rw [eq_of_chars_eq (hchars.eq_of_length hlength)]

theorem exists_chars_eq_take (mark : Punctuator) {count : Nat} (hcount : count < 4) :
    exists other : Punctuator, other.chars = mark.chars.take (count + 1) := by
  have hall : forall mark, mark ∈ all -> forall count, count < 4 ->
      exists other, other ∈ all ∧ other.chars = mark.chars.take (count + 1) := by
    decide +kernel
  rcases hall mark (mem_all mark) count hcount with ⟨other, _, hother⟩
  exact ⟨other, hother⟩

theorem not_isApart_drop (mark : Punctuator) (c : Char) (hc : c ∈ mark.chars.drop 1) :
    isApart c = false := by
  have hall : forall mark, mark ∈ all -> (mark.chars.drop 1).all (fun c => !isApart c) = true := by
    decide +kernel
  simpa using List.all_eq_true.mp (hall mark (mem_all mark)) c hc

theorem length_le_four (mark : Punctuator) : mark.chars.length ≤ 4 := by
  cases mark <;> decide

/-- A longer punctuator would begin with one that is longer by one character. -/
theorem longest?_before {mark : Punctuator} {rest rest' : List Char}
    (h : longest? (mark.chars ++ rest) = some mark) (hbegins : Begins isApart rest rest') :
    longest? (mark.chars ++ rest') = some mark := by
  refine longest?_eq_some (List.prefix_append _ _) fun other hother =>
    Nat.le_of_not_lt fun hlonger => ?_
  rcases List.prefix_of_prefix_length_le (List.prefix_append _ _) hother (Nat.le_of_lt hlonger) with
    ⟨tail, htail⟩
  cases tail with
  | nil =>
      rw [← htail, List.append_nil] at hlonger
      exact absurd hlonger (Nat.lt_irrefl _)
  | cons c tail =>
      have hnonempty := List.length_pos_iff.mpr mark.chars_ne_nil
      have hhead : rest'.head? = some c := by
        rw [← htail] at hother
        rcases (List.prefix_append_right_inj mark.chars).mp hother with ⟨behind, rfl⟩
        rfl
      rcases hbegins c hhead with hsame | hapart
      · -- The longer one would have been found in front of the first text, too.
        have hshort : mark.chars.length < 4 := Nat.lt_of_lt_of_le hlonger other.length_le_four
        rcases other.exists_chars_eq_take hshort with ⟨next, hnext⟩
        rw [← htail, List.take_append, List.take_of_length_le (Nat.le_succ _),
          Nat.add_sub_cancel_left,
          List.take_one] at hnext
        have hprefix : next.chars <+: mark.chars ++ rest := by
          cases rest with
          | nil => cases hsame
          | cons d rest =>
              cases hsame
              rw [hnext]
              exact ⟨rest, by simp⟩
        have hle := length_le_of_longest? h hprefix
        rw [hnext, List.length_append] at hle
        exact absurd hle (Nat.not_succ_le_self _)
      · have hmem : c ∈ other.chars.drop 1 := by
          rw [← htail, List.drop_append_of_le_length hnonempty]
          exact List.mem_append_right _ List.mem_cons_self
        rw [other.not_isApart_drop c hmem] at hapart
        cases hapart

end Punctuator

/-!
## Items
-/

theorem numericLiteral_point {text : List Char} (h : startsNumber '.' text = true) :
    exists d more, (numericLiteral ('.' :: text)).taken = '.' :: d :: more := by
  have hhex : ¬ BeginsHex ('.' :: text) := by
    rintro ⟨_, _, heq, _⟩
    cases heq
  cases text with
  | nil => cases h
  | cons d text =>
      have hdigit : d.isDigit = true := by
        simpa [startsNumber] using h
      rw [numericLiteral_of_decimal hhex]
      refine ⟨d, text.takeWhile Char.isDigit ++
        (exponentPart (text.dropWhile Char.isDigit)).taken, ?_⟩
      simp [Reading.map, decimalLiteral, Reading.run, fractionPart, Reading.extend, hdigit]

theorem startsNumber_append {c : Char} {cs rest : List Char}
    (h : startsNumber c (cs ++ rest) = true) (hsome : c = '.' -> cs ≠ []) (rest' : List Char) :
    startsNumber c (cs ++ rest') = true := by
  cases cs with
  | nil =>
      simp only [startsNumber, Bool.or_eq_true, Bool.and_eq_true, decide_eq_true_eq] at h ⊢
      rcases h with hdigit | ⟨hpoint, _⟩
      · exact .inl hdigit
      · exact absurd rfl (hsome hpoint)
  | cons d cs => exact h

theorem not_startsNumber_append {c : Char} {cs rest rest' : List Char}
    (h : startsNumber c (cs ++ rest) = false) (hbegins : Begins isApart rest rest') :
    startsNumber c (cs ++ rest') = false := by
  simp only [startsNumber, Bool.or_eq_false_iff, Bool.and_eq_false_iff] at h ⊢
  refine ⟨h.1, h.2.imp_right fun hhead => ?_⟩
  have hdigit := (hbegins.append cs).apart_not_head (q := Char.isDigit) rfl rfl fun d hd => by
    rw [hd] at hhead
    exact hhead
  cases hnext : (cs ++ rest').head? with
  | none => rfl
  | some d => exact hdigit d hnext

variable {afterOperand : Bool} {c : Char} {cs rest rest' : List Char}

/-- A token is read in front of any text that begins like the one behind it, or that no token
begins with, and at the end of a text. -/
theorem item_token_before {kind : TokenKind}
    (h : item afterOperand c (cs ++ rest) = ⟨.token kind, c :: cs, rest⟩)
    (hbegins : Begins isApart rest rest') :
    item afterOperand c (cs ++ rest') = ⟨.token kind, c :: cs, rest'⟩ := by
  have hscanned :=
    item_scanned (show (item afterOperand c (cs ++ rest)).value = .token kind by rw [h])
  rw [h] at hscanned
  generalize hreading : (⟨.token kind, c :: cs, rest⟩ : Reading Item) = r at hscanned
  have hvalue : Item.token kind = r.value := congrArg Reading.value hreading
  have htaken : c :: cs = r.taken := congrArg Reading.taken hreading
  have hrest : rest = r.rest := congrArg Reading.rest hreading
  cases hscanned with
  | regExp pattern flags hc hafter hline hblock =>
      subst hc hafter
      have hsome : (regExpTail (cs ++ rest)).value ≠ none := by
        intro hnone
        simp [regExpItem, Reading.extend, Reading.map, hnone] at hvalue
      have hstops : Begins isApart (regExpTail (cs ++ rest)).rest rest' := by
        rw [← show rest = (regExpTail (cs ++ rest)).rest from hrest]
        exact hbegins
      have htail := regExpTail_before hsome hstops
      rw [← show cs = (regExpTail (cs ++ rest)).taken from (List.cons.inj htaken).2] at htail
      rw [item_of_slash ((hbegins.append cs).head?_ne rfl hline)
        ((hbegins.append cs).head?_ne rfl hblock), regExpItem, htail]
      exact congrArg (·.before rest') hreading.symm
  | string value hc =>
      have hdigit : isHexDigit c = false := by
        rcases hc with rfl | rfl <;> rfl
      have hsome : (stringTail c (cs ++ rest)).value ≠ none := by
        intro hnone
        simp [stringItem, Reading.extend, Reading.map, hnone] at hvalue
      have htail := (stringTail_before hdigit hsome rest').2
      rw [← show cs = (stringTail c (cs ++ rest)).taken from (List.cons.inj htaken).2] at htail
      rw [item_of_quote hc, stringItem, htail]
      exact congrArg (·.before rest') hreading.symm
  | number value hstarts =>
      have htaken' : c :: cs = (numericLiteral (c :: (cs ++ rest))).taken := htaken
      have hsome : c = '.' -> cs ≠ [] := by
        rintro rfl rfl
        rcases numericLiteral_point hstarts with ⟨d, more, hmore⟩
        rw [← htaken'] at hmore
        cases hmore
      have hvalue' : (numericLiteral (c :: (cs ++ rest))).value ≠ none := by
        intro hnone
        simp [numberItem, Reading.map, hnone] at hvalue
      have hstops : Begins isApart (numericLiteral (c :: (cs ++ rest))).rest rest' := by
        rw [← show rest = (numericLiteral (c :: (cs ++ rest))).rest from hrest]
        exact hbegins
      have hliteral :=
        numericLiteral_before hvalue' (by rw [← htaken']; exact List.cons_ne_nil _ _) hstops
      rw [← htaken', List.cons_append] at hliteral
      rw [item_of_startsNumber (startsNumber_append hstarts hsome rest'), numberItem, hliteral]
      exact congrArg (·.before rest') hreading.symm
  | word _ hkind hstart =>
      have hstops : Begins isApart (wordTail (cs ++ rest)).rest rest' := by
        rw [← show rest = (wordTail (cs ++ rest)).rest from hrest]
        exact hbegins
      have hword := wordTail_before (cs ++ rest) hstops
      rw [← show cs = (wordTail (cs ++ rest)).taken from (List.cons.inj htaken).2] at hword
      rw [item_of_wordStart hstart, wordItem, hword]
      exact congrArg (·.before rest') hreading.symm
  | punctuator mark hslash hnumber =>
      unfold punctuatorItem at hvalue htaken hrest
      cases hlongest : Punctuator.longest? (c :: (cs ++ rest)) with
      | none =>
          rw [hlongest] at hvalue
          cases hvalue
      | some found =>
          rw [hlongest] at hvalue htaken
          have hchars : found.chars = c :: cs := htaken.symm
          have hfound : Punctuator.longest? (found.chars ++ rest) = some found := by
            rw [hchars]
            exact hlongest
          have hlongest' := Punctuator.longest?_before hfound hbegins
          rw [hchars, List.cons_append] at hlongest'
          injection hvalue with hkind
          rw [item_of_mark hchars ?_ (not_startsNumber_append hnumber hbegins),
            punctuatorItem, hlongest']
          · dsimp only
            rw [hchars, hkind, show c :: (cs ++ rest') = (c :: cs) ++ rest' from rfl,
              List.drop_left]
          · intro hc
            rcases hslash hc with ⟨hafter, hline, hblock⟩
            exact ⟨hafter, (hbegins.append cs).head?_ne rfl hline,
              (hbegins.append cs).head?_ne rfl hblock⟩

inductive Skipped (c : Char) (text : List Char) : Reading Item → Prop where
  | blank :
      isScriptBlank c = true ->
      Skipped c text ⟨.trivia, [c], text⟩
  | lineBreak :
      isLineTerminator c = true ->
      Skipped c text (lineBreak c text)
  | lineComment :
      c = '/' -> text.head? = some '/' ->
      Skipped c text (lineCommentItem (text.drop 1))
  | blockComment :
      c = '/' -> text.head? = some '*' -> (blockCommentTail (text.drop 1)).value = true ->
      Skipped c text (blockCommentItem (text.drop 1))

theorem item_skipped {text : List Char} (h : (item afterOperand c text).value = .trivia) :
    Skipped c text (item afterOperand c text) := by
  unfold item at h ⊢
  by_cases hblank : isScriptBlank c = true
  · rw [if_pos hblank]
    exact .blank hblank
  rw [if_neg hblank] at h ⊢
  by_cases hterminator : isLineTerminator c = true
  · rw [if_pos hterminator]
    exact .lineBreak hterminator
  rw [if_neg hterminator] at h ⊢
  by_cases hline : (c = '/' && text.head? = some '/') = true
  · rw [if_pos hline]
    simp only [Bool.and_eq_true, decide_eq_true_eq] at hline
    exact .lineComment hline.1 hline.2
  rw [if_neg hline] at h ⊢
  by_cases hblock : (c = '/' && text.head? = some '*') = true
  · rw [if_pos hblock] at h ⊢
    simp only [Bool.and_eq_true, decide_eq_true_eq] at hblock
    refine .blockComment hblock.1 hblock.2 ?_
    simp only [blockCommentItem, Reading.extend, Reading.map] at h
    cases hclosed : (blockCommentTail (text.drop 1)).value with
    | true => rfl
    | false =>
        rw [hclosed] at h
        cases h
  rw [if_neg hblock] at h ⊢
  -- All other items are tokens or faults.
  exfalso
  revert h
  split
  next => simp only [regExpItem, Reading.extend, Reading.map]; split <;> simp
  split
  next => simp only [stringItem, Reading.extend, Reading.map]; split <;> simp
  split
  next => simp only [numberItem, Reading.map]; split <;> simp
  split
  next => simp [wordItem, Reading.map]
  next => unfold punctuatorItem; split <;> simp

theorem item_of_blank (hblank : isScriptBlank c = true) (text : List Char) :
    item afterOperand c text = ⟨.trivia, [c], text⟩ :=
  if_pos hblank

theorem item_of_terminator (hterminator : isLineTerminator c = true) (text : List Char) :
    item afterOperand c text = lineBreak c text := by
  have hblank : ¬ isScriptBlank c = true := by
    simp only [isLineTerminator, Bool.or_eq_true, decide_eq_true_eq] at hterminator
    rcases hterminator with ((rfl | rfl) | rfl) | rfl <;> decide +kernel
  unfold item
  rw [if_neg hblank, if_pos hterminator]

theorem item_of_lineComment (text : List Char) :
    item afterOperand '/' ('/' :: text) = lineCommentItem text :=
  rfl

theorem item_of_blockComment (text : List Char) :
    item afterOperand '/' ('*' :: text) = blockCommentItem text :=
  rfl

theorem lineBreak_of_other {text : List Char} (h : c = '\r' -> text.head? ≠ some '\n') :
    lineBreak c text = ⟨.trivia, [c], text⟩ := by
  unfold lineBreak
  split
  next => exact absurd rfl (h rfl)
  next => rfl

/-- What stands between tokens is passed over in front of any text that begins alike. -/
theorem item_trivia_before
    (h : item afterOperand c (cs ++ rest) = ⟨.trivia, c :: cs, rest⟩)
    (hbegins : Begins (fun _ => false) rest rest') :
    item afterOperand c (cs ++ rest') = ⟨.trivia, c :: cs, rest'⟩ := by
  have hskipped := item_skipped (show (item afterOperand c (cs ++ rest)).value = .trivia by rw [h])
  rw [h] at hskipped
  generalize hreading : (⟨.trivia, c :: cs, rest⟩ : Reading Item) = r at hskipped
  have htaken : c :: cs = r.taken := congrArg Reading.taken hreading
  have hrest : rest = r.rest := congrArg Reading.rest hreading
  cases hskipped with
  | blank hblank =>
      cases htaken
      exact item_of_blank hblank rest'
  | lineBreak hterminator =>
      rw [item_of_terminator hterminator]
      by_cases hpair : c = '\r' ∧ (cs ++ rest).head? = some '\n'
      · rcases hpair with ⟨rfl, hhead⟩
        rw [eq_cons_drop_of_head? hhead] at htaken
        cases htaken
        rfl
      · have hone (hc : c = '\r') : (cs ++ rest).head? ≠ some '\n' := fun hhead => hpair ⟨hc, hhead⟩
        rw [lineBreak_of_other hone] at htaken
        cases htaken
        refine lineBreak_of_other fun hc hhead => ?_
        rcases hbegins '\n' hhead with hsame | hfalse
        · exact hone hc hsame
        · cases hfalse
  | lineComment hc hline =>
      subst hc
      generalize (cs ++ rest).drop 1 = more at hreading htaken hrest
      have hcs : cs = '/' :: (lineComment more).taken := (List.cons.inj htaken).2
      have hrun : lineComment ((lineComment more).taken ++ rest') =
        (lineComment more).before rest' := by
        refine run_before more (hbegins.not_head nofun fun d hd => ?_)
        rw [show rest = (lineComment more).rest from hrest] at hd
        exact head?_run_rest hd
      rw [hcs, List.cons_append, item_of_lineComment, lineCommentItem, hrun]
      rfl
  | blockComment hc hblock hclosed =>
      subst hc
      generalize (cs ++ rest).drop 1 = more at hreading htaken hrest hclosed
      have hcs : cs = '*' :: (blockCommentTail more).taken := (List.cons.inj htaken).2
      rw [hcs, List.cons_append, item_of_blockComment, blockCommentItem,
        (blockCommentTail_before hclosed rest').2]
      simp only [Reading.extend, Reading.map, Reading.before, hclosed]
      rfl

end Token
end ScriptHints
