import ScriptHints.Proofs.Bytes.Numbers
import ScriptHints.Proofs.Token.Local

/-!
# Scans of items

Comments, regular expressions, words and punctuators, and the choice among all items by the
first two characters. A line that ends in a blank or in a comment counts for the token
behind it; this is the only trace that trivia leave on a cursor besides its place.
-/

namespace ScriptHints

open Text

namespace Token

namespace Punctuator

theorem chars_of_ofChars? {chars : List Char} {mark : Punctuator}
    (h : ofChars? chars = some mark) : mark.chars = chars := by
  simpa using List.find?_some h

theorem all_chars (mark : Punctuator) :
    mark.chars.all (fun c => c.val ≤ 0x7f && !isLineTerminator c) = true := by
  cases mark <;> rfl

theorem utf8Len_chars (mark : Punctuator) : String.utf8Len mark.chars = mark.chars.length := by
  apply utf8Len_eq_length
  intro c hc
  have hplain := List.all_eq_true.mp mark.all_chars c hc
  rw [Bool.and_eq_true, decide_eq_true_eq] at hplain
  exact utf8Size_eq_one hplain.1

theorem inline_chars (mark : Punctuator) (c : Char) (hc : c ∈ mark.chars) :
    isLineTerminator c = false := by
  have hplain := List.all_eq_true.mp mark.all_chars c hc
  rw [Bool.and_eq_true, Bool.not_eq_true'] at hplain
  exact hplain.2

theorem length_chars (mark : Punctuator) : mark.chars.length ∈ [4, 3, 2, 1] := by
  cases mark <;> decide

end Punctuator

theorem inline_isScriptBlank (c : Char) :
    isScriptBlank c = true -> isLineTerminator c = false :=
  inline_of (by decide) c

namespace Scan

/-!
## Trivia
-/

def breakLine : Scan Unit :=
  modify fun cursor => { cursor with newline := true }

def noteLine (c : Char) : Scan Unit :=
  if isLineTerminator c then breakLine else return

def blockCommentWithin : Nat → Scan Bool
  | 0 => throw .endless
  | rounds + 1 => do
      match ← advance with
      | none => return false
      | some c =>
          noteLine c
          if c = '*' && (← peek) = some '/' then
            let _ ← advance
            return true
          else
            blockCommentWithin rounds

def blockComment : Scan Item := do
  let _ ← advance
  let _ ← advance
  let closed ← blockCommentWithin (← rounds)
  return if closed then .trivia else .fault .unterminatedComment

/-!
## Tokens
-/

def patternWithin (inClass : Bool) : Nat → Scan (Option (List Char))
  | 0 => throw .endless
  | rounds + 1 => do
      match ← peek with
      | none => return none
      | some c =>
          if isLineTerminator c then
            return none
          else
            let _ ← advance
            if c = '/' && !inClass then
              return some []
            else if c = '\\' then
              match ← peek with
              | none => return none
              | some e =>
                  if isLineTerminator e then
                    return none
                  else
                    let _ ← advance
                    Option.map ([c, e] ++ ·) <$> patternWithin inClass rounds
            else
              let inClass := if c = '[' then true else if c = ']' then false else inClass
              Option.map (c :: ·) <$> patternWithin inClass rounds

def regExp : Scan Item := do
  let _ ← advance
  match ← patternWithin false (← rounds) with
  | none => return .fault .unterminatedRegExp
  | some pattern =>
      let (_, flags) ← sliced 0 (skip isWordPart)
      return .token (.regExp (String.ofList pattern) (String.ofList flags))

def word : Scan Item := do
  let (_, lexeme) ← sliced 0 do
    let _ ← advance
    skip isWordPart
  return .token (kindOfWord (String.ofList lexeme))

def punctuatorOf : List Nat → Scan Item
  | [] => return .fault (.unexpectedCharacter ((← peek).getD '\x00'))
  | count :: counts => do
      let start ← offset
      match (← attemptSlice start (start + count)).bind Punctuator.ofChars? with
      | none => punctuatorOf counts
      | some mark =>
          advanceTimes count
          return .token (.punctuator mark)

def punctuator : Scan Item :=
  punctuatorOf [4, 3, 2, 1]

def item (afterOperand : Bool) (c : Char) : Scan Item := do
  let next ← peekNext
  if isScriptBlank c then
    let _ ← advance
    return .trivia
  else if isLineTerminator c then
    let _ ← advance
    breakLine
    return .trivia
  else if c = '/' && next = some '/' then
    skip fun c => !isLineTerminator c
    return .trivia
  else if c = '/' && next = some '*' then
    blockComment
  else if c = '/' && !afterOperand then
    regExp
  else if c = '"' || c = '\'' then
    string c
  else if c.isDigit || (c = '.' && next.any Char.isDigit) then
    number
  else if isWordStart c then
    word
  else
    punctuator

end Scan

namespace Follows

variable {text : List Char}

theorem breakLine (text : List Char) : Follows Scan.breakLine text ⟨(), [], text⟩ true where
  scans cursor front _ := by
    show EStateM.Result.ok () _ = _
    simp [Cursor.past]
  splits := rfl
  apart := apart_nil text

theorem advance_lineBreak {c : Char} (hc : isLineTerminator c = true) (text : List Char) :
    Follows Scan.advance (c :: text)
      ⟨some c, (lineBreak c text).taken, (lineBreak c text).rest⟩ false := by
  unfold lineBreak
  split
  next more => exact advance_pair more
  next hsingle =>
    apply advance_terminator hc
    rintro ⟨hreturn, hfeed⟩
    exact hsingle _ hreturn (eq_cons_drop_of_head? hfeed)

theorem noteLine (c : Char) (text : List Char) :
    Follows (Scan.noteLine c) text ⟨(), [], text⟩ (isLineTerminator c) := by
  unfold Scan.noteLine
  cases isLineTerminator c with
  | true => exact breakLine text
  | false => exact pure () text

theorem length_rest_lineBreak_le (c : Char) (text : List Char) :
    (lineBreak c text).rest.length ≤ text.length := by
  unfold lineBreak
  split
  next => exact Nat.le_succ _
  next => exact Nat.le_refl _

theorem any_taken_lineBreak {c : Char} (hc : isLineTerminator c = true) (text : List Char) :
    (lineBreak c text).taken.any isLineTerminator = true := by
  unfold lineBreak
  split
  next => rfl
  next => simp [hc]

theorem blockCommentTail_lineBreak {c : Char} (hc : isLineTerminator c = true)
    (text : List Char) :
    blockCommentTail (c :: text) =
      (blockCommentTail (lineBreak c text).rest).extend (lineBreak c text).taken := by
  unfold lineBreak
  split
  next => rfl
  next =>
    rw [blockCommentTail]
    rintro more rfl
    cases hc

theorem blockCommentWithin {rounds : Nat} {text : List Char} (hrounds : text.length < rounds) :
    Follows (Scan.blockCommentWithin rounds) text (blockCommentTail text)
      ((blockCommentTail text).taken.any isLineTerminator) := by
  induction rounds generalizing text with
  | zero => exact absurd hrounds (Nat.not_lt_zero _)
  | succ rounds ih =>
      -- What a round does behind a character that does not close the comment.
      have hround : forall c rest, ¬ (c = '*' ∧ rest.head? = some '/') -> rest.length < rounds ->
          Follows (do
            Scan.noteLine c
            if c = '*' && (← Scan.peek) = some '/' then
              let _ ← Scan.advance
              return true
            else
              Scan.blockCommentWithin rounds) rest (blockCommentTail rest)
            (isLineTerminator c || (blockCommentTail rest).taken.any isLineTerminator) := by
        intro c rest hopen hrest
        apply (noteLine c rest).bind
        apply peekThen
        rw [if_neg (by simpa using hopen)]
        exact ih hrest
      unfold Scan.blockCommentWithin
      cases text with
      | nil => exact advance_nil.andThen (pure false [])
      | cons c text =>
          have hlength : text.length < rounds := Nat.lt_of_succ_lt_succ hrounds
          cases hc : isLineTerminator c with
          | true =>
              have hopen : ¬ (c = '*' ∧ (lineBreak c text).rest.head? = some '/') := by
                rintro ⟨rfl, _⟩
                cases hc
              have hrest := Nat.lt_of_le_of_lt (length_rest_lineBreak_le c text) hlength
              rw [blockCommentTail_lineBreak hc]
              apply of_breaks ((advance_lineBreak hc text).andThen (hround c _ hopen hrest))
              rw [hc, Bool.true_or]
              rw [Reading.extend, List.any_append, any_taken_lineBreak hc text, Bool.true_or]
          | false =>
              by_cases hclose : c = '*' ∧ text.head? = some '/'
              · rcases hclose with ⟨rfl, hslash⟩
                rw [eq_cons_drop_of_head? hslash]
                apply advanceThen hc
                apply andThen (noteLine '*' _)
                apply peekThen
                exact advanceThen (c := '/') (by decide) (pure true _)
              · have htail : blockCommentTail (c :: text) =
                    (blockCommentTail text).extend [c] := by
                  rw [blockCommentTail]
                  rintro more rfl rfl
                  exact hclose ⟨rfl, rfl⟩
                rw [htail]
                apply of_breaks (advanceThen hc (hround c text hclose hlength))
                rfl

theorem patternWithin (inClass : Bool) {rounds : Nat} {text : List Char}
    (hrounds : text.length < rounds) :
    Follows (Scan.patternWithin inClass rounds) text (patternTail inClass text) false := by
  induction rounds generalizing inClass text with
  | zero => exact absurd hrounds (Nat.not_lt_zero _)
  | succ rounds ih =>
      unfold Scan.patternWithin
      apply peekThen
      fun_cases patternTail inClass text with
      | case1 => exact pure none []
      | case2 c text hterminator =>
          rw [List.head?_cons]
          simp only [hterminator, if_true]
          exact pure none (c :: text)
      | case3 c text hterminator hslash =>
          rw [List.head?_cons]
          simp only [hterminator, hslash, if_true]
          exact advanceThen (by simpa using hterminator) (pure (some []) text)
      | case4 hterminator hslash =>
          simp only [List.head?_cons, hterminator, hslash, if_true]
          apply advanceThen (c := '\\') (by decide)
          exact peekThen (pure none [])
      | case5 e more he hterminator hslash =>
          simp only [List.head?_cons, hterminator, hslash, if_true]
          apply advanceThen (c := '\\') (by decide)
          apply peekThen
          simp only [List.head?_cons, he, if_true]
          exact pure none (e :: more)
      | case6 e more he hterminator hslash =>
          simp only [List.head?_cons, hterminator, hslash, if_true]
          apply advanceThen (c := '\\') (by decide)
          apply peekThen
          simp only [List.head?_cons, he]
          have hless : more.length < rounds := by
            simp only [List.length_cons] at hrounds
            omega
          have hmore := ih inClass hless
          exact advanceThen (by simpa using he) (hmore.map _)
      | case7 c text hterminator hslash hescape inClass' =>
          simp only [List.head?_cons, hterminator, hslash, hescape]
          have hmore := ih inClass' (Nat.lt_of_succ_lt_succ hrounds)
          exact advanceThen (by simpa using hterminator) (hmore.map _)

theorem regExp (text : List Char) :
    Follows Scan.regExp ('/' :: text) (regExpItem text) false := by
  unfold Scan.regExp
  apply advanceThen (c := '/') (by decide)
  apply roundsThen
  intro rounds hrounds
  have hpattern := patternWithin false hrounds
  unfold regExpTail
  generalize patternTail false text = pattern at hpattern
  rcases pattern with ⟨value, taken, rest⟩
  cases value with
  | none => exact hpattern.thenReturn rfl
  | some p =>
      have hflags := (skip inline_isWordPart rest).sliced (l := []) rfl rfl
      exact hpattern.andThen (hflags.returning _)

theorem word {c : Char} (hc : isLineTerminator c = false) (text : List Char) :
    Follows Scan.word (c :: text) (wordItem c text) false := by
  have hword : Follows (do
      let _ ← Scan.advance
      Scan.skip isWordPart) (c :: text) ((wordTail text).extend [c]) false :=
    advanceThen hc (skip inline_isWordPart text)
  exact (hword.sliced (l := []) rfl rfl).returning _

theorem punctuatorOf {c : Char} {text : List Char} {counts : List Nat}
    (hcounts : forall mark : Punctuator, mark.chars <+: c :: text -> mark.chars.length ∈ counts)
    (hdescending : counts.Pairwise (· > ·)) :
    Follows (Scan.punctuatorOf counts) (c :: text) (punctuatorItem c text) false := by
  induction counts with
  | nil =>
      have hnone : Punctuator.longest? (c :: text) = none := by
        cases hlongest : Punctuator.longest? (c :: text) with
        | none => rfl
        | some mark =>
            have hmem := hcounts mark (Punctuator.longest?_isPrefix hlongest)
            cases hmem
      unfold punctuatorItem
      rw [hnone]
      exact (peek (c :: text)).thenReturn rfl
  | cons count counts ih =>
      unfold Scan.punctuatorOf
      apply attemptSliceThen
      rcases List.pairwise_cons.mp hdescending with ⟨hcount, hdescending⟩
      cases hmark : (takeBytes? count (c :: text)).bind Punctuator.ofChars? with
      | none =>
          apply ih _ hdescending
          intro mark hfront
          rcases List.mem_cons.mp (hcounts mark hfront) with hlength | hmem
          · rcases hfront with ⟨more, hmore⟩
            have htake := takeBytes?_append mark.chars more
            rw [hmore, mark.utf8Len_chars, hlength] at htake
            rw [htake, Option.bind_some, mark.ofChars?_chars] at hmark
            cases hmark
          · exact hmem
      | some mark =>
          rcases Option.bind_eq_some_iff.mp hmark with ⟨part, htake, hchars⟩
          rcases of_takeBytes?_eq_some htake with ⟨hfront, hbytes⟩
          rw [← Punctuator.chars_of_ofChars? hchars] at hfront hbytes
          rw [mark.utf8Len_chars] at hbytes
          have hlongest : Punctuator.longest? (c :: text) = some mark := by
            apply Punctuator.longest?_eq_some hfront
            intro other hother
            rw [hbytes]
            rcases List.mem_cons.mp (hcounts other hother) with hlength | hmem
            · exact Nat.le_of_eq hlength
            · exact Nat.le_of_lt (hcount _ hmem)
          rcases hfront with ⟨more, hmore⟩
          have hmoves := advanceTimes more mark.inline_chars
          have hdrop : (c :: text).drop mark.chars.length = more := by
            rw [← hmore, List.drop_left]
          unfold punctuatorItem
          rw [hlongest]
          dsimp only
          rw [hdrop, ← hmore, ← hbytes]
          exact hmoves.thenReturn rfl

theorem punctuator (c : Char) (text : List Char) :
    Follows Scan.punctuator (c :: text) (punctuatorItem c text) false :=
  punctuatorOf (fun mark _ => mark.length_chars) (by decide)

theorem lineComment (text : List Char) :
    Follows (do
      Scan.skip fun c => !isLineTerminator c
      return Item.trivia) ('/' :: '/' :: text) (lineCommentItem text) false := by
  have hskip := skip (p := fun c => !isLineTerminator c) (by simp) ('/' :: '/' :: text)
  have hslash : isLineTerminator '/' = false := by decide
  apply (hskip.returning fun _ => Item.trivia).of_eq
  simp [lineCommentItem, Token.lineComment, Reading.run, Reading.map, Reading.extend, hslash]

theorem breaksLine_lineCommentItem (text : List Char) :
    Lexer.breaksLine (lineCommentItem text).value (lineCommentItem text).taken = false := by
  have htaken : ((lineCommentItem text).taken).any isLineTerminator = false := by
    rw [List.any_eq_false]
    intro c hc
    rcases List.mem_append.mp hc with hslash | hinside
    · simp only [List.mem_cons, List.not_mem_nil, or_false, or_self] at hslash
      rw [hslash]
      decide
    · simpa using List.mem_takeWhile_imp hinside
  exact htaken

theorem blockComment (text : List Char) :
    Follows Scan.blockComment ('/' :: '*' :: text) (blockCommentItem text)
      ((blockCommentItem text).taken.any isLineTerminator) := by
  unfold Scan.blockComment
  apply advanceThen (c := '/') (by decide)
  apply advanceThen (c := '*') (by decide)
  apply roundsThen
  intro rounds hrounds
  exact (blockCommentWithin hrounds).returning _

theorem breaksLine_blockCommentItem (text taken : List Char) :
    Lexer.breaksLine (blockCommentItem text).value taken = taken.any isLineTerminator := by
  simp only [blockCommentItem, Reading.extend, Reading.map]
  cases (blockCommentTail text).value <;> rfl

theorem breaksLine_regExpItem (text taken : List Char) :
    Lexer.breaksLine (regExpItem text).value taken = false := by
  simp only [regExpItem, Reading.extend, Reading.map]
  cases (regExpTail text).value <;> rfl

theorem breaksLine_stringItem (quote : Char) (text taken : List Char) :
    Lexer.breaksLine (stringItem quote text).value taken = false := by
  simp only [stringItem, Reading.extend, Reading.map]
  cases (stringTail quote text).value <;> rfl

theorem breaksLine_numberItem (text taken : List Char) :
    Lexer.breaksLine (numberItem text).value taken = false := by
  simp only [numberItem, Reading.map]
  cases (numericLiteral text).value <;> rfl

theorem breaksLine_punctuatorItem (c : Char) (text taken : List Char) :
    Lexer.breaksLine (punctuatorItem c text).value taken = false := by
  unfold punctuatorItem
  cases Punctuator.longest? (c :: text) <;> rfl

theorem item (afterOperand : Bool) (c : Char) (text : List Char) :
    Follows (Scan.item afterOperand c) (c :: text) (Token.item afterOperand c text)
      (Lexer.breaksLine (Token.item afterOperand c text).value
        (Token.item afterOperand c text).taken) := by
  unfold Scan.item Token.item
  apply peekNextThen
  rw [List.tail_cons]
  by_cases hblank : isScriptBlank c = true
  · simp only [if_pos hblank]
    have hc := inline_isScriptBlank c hblank
    apply of_breaks (advanceThen hc (pure Item.trivia text))
    simp [Lexer.breaksLine, hc]
  simp only [if_neg hblank]
  by_cases hterminator : isLineTerminator c = true
  · simp only [if_pos hterminator]
    have hmoves := advance_lineBreak hterminator text
    have hitem : lineBreak c text =
        ⟨.trivia, (lineBreak c text).taken ++ [], (lineBreak c text).rest⟩ := by
      rw [List.append_nil]
      unfold lineBreak
      split <;> rfl
    rw [hitem]
    apply of_breaks (hmoves.bind ((breakLine _).returning fun _ => Item.trivia))
    simp [Lexer.breaksLine, any_taken_lineBreak hterminator]
  simp only [if_neg hterminator]
  have hinline : isLineTerminator c = false := by simpa using hterminator
  by_cases hline : (c = '/' && text.head? = some '/') = true
  · simp only [if_pos hline]
    rw [Bool.and_eq_true, decide_eq_true_eq, decide_eq_true_eq] at hline
    rw [hline.1, eq_cons_drop_of_head? hline.2]
    exact (lineComment _).of_breaks (breaksLine_lineCommentItem _).symm
  simp only [if_neg hline]
  by_cases hblock : (c = '/' && text.head? = some '*') = true
  · simp only [if_pos hblock, breaksLine_blockCommentItem]
    rw [Bool.and_eq_true, decide_eq_true_eq, decide_eq_true_eq] at hblock
    rw [hblock.1, eq_cons_drop_of_head? hblock.2]
    exact blockComment _
  simp only [if_neg hblock]
  by_cases hregExp : (c = '/' && !afterOperand) = true
  · simp only [if_pos hregExp]
    rw [Bool.and_eq_true, decide_eq_true_eq] at hregExp
    rw [hregExp.1]
    exact (regExp text).of_breaks (breaksLine_regExpItem text _).symm
  simp only [if_neg hregExp]
  by_cases hquote : (c = '"' || c = '\'') = true
  · simp only [if_pos hquote]
    exact (string hinline text).of_breaks (breaksLine_stringItem c text _).symm
  simp only [if_neg hquote]
  by_cases hnumber : startsNumber c text = true
  · rw [← startsNumber]
    simp only [if_pos hnumber]
    exact (number (c :: text)).of_breaks (breaksLine_numberItem _ _).symm
  rw [← startsNumber]
  simp only [if_neg hnumber]
  by_cases hword : isWordStart c = true
  · simp only [if_pos hword]
    exact (word hinline text).of_breaks rfl
  simp only [if_neg hword]
  exact (punctuator c text).of_breaks (breaksLine_punctuatorItem c text _).symm

end Follows

end Token
end ScriptHints
