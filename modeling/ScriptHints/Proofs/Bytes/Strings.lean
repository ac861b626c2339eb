import ScriptHints.Proofs.Bytes.Cursor

/-!
# Scans of strings

An escape asks for a slice of the next two or four bytes before it knows whether there are as
many digits, so the slice may be torn. It is then no slice, and the escape has no digits.
-/

namespace ScriptHints
namespace Token

open Number Text

/-!
## Characters of literals
-/

theorem isLineTerminator_cases {c : Char} (h : isLineTerminator c = true) :
    c = '\n' ∨ c = '\r' ∨ c = '\u2028' ∨ c = '\u2029' := by
  simpa [isLineTerminator, or_assoc] using h

theorem inline_of {p : Char → Bool}
    (h : (p '\n' || p '\r' || p '\u2028' || p '\u2029') = false) (c : Char) (hc : p c = true) :
    isLineTerminator c = false := by
  cases hterminator : isLineTerminator c with
  | false => rfl
  | true =>
      simp only [Bool.or_eq_false_iff] at h
      rcases isLineTerminator_cases hterminator with rfl | rfl | rfl | rfl
      · rw [h.1.1.1] at hc
        cases hc
      · rw [h.1.1.2] at hc
        cases hc
      · rw [h.1.2] at hc
        cases hc
      · rw [h.2] at hc
        cases hc

theorem inline_isDigit (c : Char) : c.isDigit = true -> isLineTerminator c = false :=
  inline_of (by decide) c

theorem inline_isHexDigit (c : Char) : isHexDigit c = true -> isLineTerminator c = false :=
  inline_of (by decide) c

theorem inline_isWordPart (c : Char) : isWordPart c = true -> isLineTerminator c = false :=
  inline_of (by decide +kernel) c

theorem utf8Size_eq_one {c : Char} (h : c.val ≤ 0x7f) : c.utf8Size = 1 :=
  if_pos h

theorem utf8Size_of_isHexDigit {c : Char} (h : isHexDigit c = true) : c.utf8Size = 1 := by
  apply utf8Size_eq_one
  simp only [isHexDigit, Char.isDigit, Bool.or_eq_true, Bool.and_eq_true, decide_eq_true_eq,
    ge_iff_le] at h
  rcases h with (⟨_, hlast⟩ | ⟨_, hlast⟩) | ⟨_, hlast⟩
  · exact UInt32.le_trans hlast (by decide)
  · exact UInt32.le_trans hlast (by decide)
  · exact UInt32.le_trans hlast (by decide)

theorem utf8Len_eq_length {text : List Char} (h : forall c, c ∈ text -> c.utf8Size = 1) :
    String.utf8Len text = text.length := by
  induction text with
  | nil => rfl
  | cons c text ih =>
      have hmore := ih fun d hd => h d (List.mem_cons_of_mem c hd)
      rw [String.utf8Len_cons, hmore, h c List.mem_cons_self]
      rfl

theorem utf8Len_of_hexDigits {digits : List Char} (h : digits.all isHexDigit = true) :
    String.utf8Len digits = digits.length := by
  rw [List.all_eq_true] at h
  exact utf8Len_eq_length fun c hc => utf8Size_of_isHexDigit (h c hc)

namespace Scan

/-!
## Strings
-/

def advanceTimes : Nat → Scan Unit
  | 0 => return
  | n + 1 => do
      let _ ← advance
      advanceTimes n

def hexEscape (count : Nat) (letter : Char) : Scan (List Char) := do
  let start ← offset
  match (← attemptSlice start (start + count)).filter (·.all isHexDigit) with
  | none => return [letter]
  | some digits =>
      match charOfCode? (ofDigits 16 digits) with
      | none => return [letter]
      | some c =>
          advanceTimes count
          return [c]

/-- What an escape stands for, once the character behind its backslash has been passed. -/
def escapeTail (c : Char) : Scan (List Char) := do
  match c with
  | 'n' => return ['\n']
  | 'r' => return ['\r']
  | 't' => return ['\t']
  | 'b' => return ['\x08']
  | 'f' => return ['\x0c']
  | 'v' => return ['\x0b']
  | '0' => return ['\x00']
  | 'x' => hexEscape 2 c
  | 'u' => hexEscape 4 c
  | '\r' =>
      if (← peek) = some '\n' then
        let _ ← advance
        return []
      else
        return []
  | '\n' | '\u2028' | '\u2029' => return []
  | _ => return [c]

def escape : Scan (Option (List Char)) := do
  match ← advance with
  | none => return none
  | some c => some <$> escapeTail c

def stringWithin (quote : Char) : Nat → Scan (Option (List Char))
  | 0 => throw .endless
  | rounds + 1 => do
      match ← peek with
      | none => return none
      | some c =>
          if c = quote then
            let _ ← advance
            return some []
          else if c = '\\' then
            let _ ← advance
            match ← escape with
            | none => return none
            | some piece => Option.map (piece ++ ·) <$> stringWithin quote rounds
          else if isLineTerminator c then
            return none
          else
            let _ ← advance
            Option.map (c :: ·) <$> stringWithin quote rounds

def string (quote : Char) : Scan Item := do
  let _ ← advance
  let value ← stringWithin quote (← rounds)
  return match value with
    | some text => .token (.string (String.ofList text))
    | none => .fault .unterminatedString

end Scan

namespace Follows

variable {x : Scan α} {text : List Char} {r : Reading α} {breaks : Bool}

theorem advanceTimes {taken : List Char} (rest : List Char)
    (h : forall c, c ∈ taken -> isLineTerminator c = false) :
    Follows (Scan.advanceTimes taken.length) (taken ++ rest) ⟨(), taken, rest⟩ false := by
  induction taken with
  | nil => exact pure () rest
  | cons c taken ih =>
      apply (advanceThen (h c List.mem_cons_self)
        (ih fun d hd => h d (List.mem_cons_of_mem c hd))).of_eq
      rfl

theorem filter_takeBytes? (count : Nat) (text : List Char) :
    (takeBytes? count text).filter (·.all isHexDigit) =
      if (text.take count).length = count && (text.take count).all isHexDigit then
        some (text.take count) else none := by
  split
  next h =>
    simp only [Bool.and_eq_true, decide_eq_true_eq] at h
    have htake := takeBytes?_append (text.take count) (text.drop count)
    rw [List.take_append_drop, utf8Len_of_hexDigits h.2, h.1] at htake
    rw [htake, Option.filter_some, if_pos h.2]
  next h =>
    cases htake : takeBytes? count text with
    | none => rfl
    | some part =>
        rcases of_takeBytes?_eq_some htake with ⟨hfront, hbytes⟩
        rw [Option.filter_some, if_neg]
        intro hdigits
        have hlength : part.length = count := by
          rw [← utf8Len_of_hexDigits hdigits, hbytes]
        have hpart : text.take count = part := by
          rw [← hlength]
          exact (List.prefix_iff_eq_take.mp hfront).symm
        rw [hpart] at h
        simp [hlength, hdigits] at h

theorem hexEscape (count : Nat) (letter : Char) (text : List Char) :
    Follows (Scan.hexEscape count letter) text (Token.hexEscape count letter text) false := by
  unfold Scan.hexEscape Token.hexEscape
  apply attemptSliceThen
  rw [filter_takeBytes?]
  dsimp only
  cases hdigits : (text.take count).length = count && (text.take count).all isHexDigit with
  | false => exact pure [letter] text
  | true =>
      cases hcode : charOfCode? (ofDigits 16 (text.take count)) with
      | none =>
          simp only [if_true, hcode]
          exact pure [letter] text
      | some c =>
          simp only [if_true, hcode]
          simp only [Bool.and_eq_true, decide_eq_true_eq, List.all_eq_true] at hdigits
          have hmoves := advanceTimes (text.drop count) fun d hd =>
            inline_isHexDigit d (hdigits.2 d hd)
          rw [hdigits.1, List.take_append_drop] at hmoves
          apply (hmoves.andThen (pure [c] (text.drop count))).of_eq
          rw [List.append_nil]

theorem escape_nil : Follows Scan.escape [] ⟨none, [], []⟩ false :=
  advance_nil.andThen (pure none [])

theorem escape_of_advance {c : Char} {text taken rest : List Char} {r : Reading (List Char)}
    (hmoves : Follows Scan.advance text ⟨some c, taken, rest⟩ false)
    (h : Follows (Scan.escapeTail c) rest r false) :
    Follows Scan.escape text ((r.map some).extend taken) false := by
  unfold Scan.escape
  exact hmoves.andThen (h.map some)

theorem escapeTail_feed (text : List Char) :
    Follows (Scan.escapeTail '\r') ('\n' :: text) ⟨[], ['\n'], text⟩ false := by
  have hmoves := @advance_terminator '\n' (by decide) text fun h => absurd h.1 (by decide)
  have hafter := hmoves.andThen (f := fun _ => Pure.pure []) (pure ([] : List Char) text)
  exact peekThen hafter

theorem escapeTail_noFeed {text : List Char} (h : text.head? ≠ some '\n') :
    Follows (Scan.escapeTail '\r') text ⟨[], [], text⟩ false := by
  apply peekThen
  rw [if_neg h]
  exact pure [] text

theorem escapeTail_terminator {c : Char} (hc : isLineTerminator c = true) (hreturn : c ≠ '\r')
    (text : List Char) : Follows (Scan.escapeTail c) text ⟨[], [], text⟩ false := by
  rcases isLineTerminator_cases hc with rfl | rfl | rfl | rfl
  · exact pure [] text
  · exact absurd rfl hreturn
  · exact pure [] text
  · exact pure [] text

/-- A line feed that completes a return is passed with it, and one more feed on its own. -/
theorem escape_continuation {c : Char} (hc : isLineTerminator c = true) (text : List Char) :
    Follows Scan.escape (c :: text) ((continuation c text).map some) false := by
  unfold Token.continuation
  split
  next more => exact escape_of_advance (advance_pair ('\n' :: more)) (escapeTail_feed more)
  next more hsingle =>
    have hfeed : more.head? ≠ some '\n' :=
      fun hhead => hsingle (more.drop 1) (eq_cons_drop_of_head? hhead)
    exact escape_of_advance (advance_pair more) (escapeTail_noFeed hfeed)
  next hpairs hsingle =>
    have hhead : c = '\r' -> text.head? ≠ some '\n' := fun hreturn hhead =>
      hsingle _ hreturn (eq_cons_drop_of_head? hhead)
    have hmoves := @advance_terminator c hc text fun h => hhead h.1 h.2
    by_cases hreturn : c = '\r'
    · rw [hreturn] at hmoves ⊢
      exact escape_of_advance hmoves (escapeTail_noFeed (hhead hreturn))
    · exact escape_of_advance hmoves (escapeTail_terminator hc hreturn text)

theorem escape (c : Char) (text : List Char) :
    Follows Scan.escape (c :: text) ((Token.escape c text).map some) false := by
  cases hc : isLineTerminator c with
  | true =>
      have hcontinues : Token.escape c text = continuation c text := by
        rcases isLineTerminator_cases hc with rfl | rfl | rfl | rfl <;> rfl
      rw [hcontinues]
      exact escape_continuation hc text
  | false =>
      have hmoves := advance_inline hc text
      unfold Token.escape
      split
      case h_8 => exact escape_of_advance hmoves (hexEscape 2 'x' text)
      case h_9 => exact escape_of_advance hmoves (hexEscape 4 'u' text)
      case h_10 =>
        have hplain : Scan.escapeTail c = Pure.pure [c] := by
          unfold Scan.escapeTail
          split
          case h_14 => rfl
          all_goals contradiction
        rw [if_neg (by rw [hc]; decide)]
        exact escape_of_advance hmoves (hplain ▸ pure [c] text)
      all_goals exact escape_of_advance hmoves (pure _ text)

theorem stringWithin {quote : Char} (hquote : isLineTerminator quote = false) {rounds : Nat}
    {text : List Char} (hrounds : text.length < rounds) :
    Follows (Scan.stringWithin quote rounds) text (stringTail quote text) false := by
  induction rounds generalizing text with
  | zero => exact absurd hrounds (Nat.not_lt_zero _)
  | succ rounds ih =>
      unfold Scan.stringWithin
      apply peekThen
      fun_cases stringTail quote text with
      | case1 => exact pure none []
      | case2 text =>
          rw [List.head?_cons]
          simp only [if_true]
          exact advanceThen hquote (pure (some []) text)
      | case3 hquoted =>
          simp only [List.head?_cons, hquoted, if_false, if_true]
          exact advanceThen (c := '\\') (by decide) (escape_nil.andThen (pure none []))
      | case4 e more piece hquoted =>
          have hrest : piece.rest.length < (e :: more).length + 1 := length_rest_escape_lt e more
          have hmore := ih (Nat.lt_of_lt_of_le hrest (Nat.le_of_lt_succ hrounds))
          simp only [List.head?_cons, hquoted, if_false, if_true]
          exact advanceThen (c := '\\') (by decide) ((escape e more).andThen (hmore.map _))
      | case5 c text hquoted hslash hterminator =>
          simp only [List.head?_cons, hquoted, hslash, hterminator, if_false, if_true]
          exact pure none (c :: text)
      | case6 c text hquoted hslash hterminator =>
          simp only [List.head?_cons, hquoted, hslash, hterminator, if_false]
          have hmore := ih (Nat.lt_of_succ_lt_succ hrounds)
          exact advanceThen (by simpa using hterminator) (hmore.map _)

theorem string {quote : Char} (hquote : isLineTerminator quote = false) (text : List Char) :
    Follows (Scan.string quote) (quote :: text) (stringItem quote text) false := by
  unfold Scan.string
  apply advanceThen hquote
  apply roundsThen
  intro rounds hrounds
  exact (stringWithin hquote hrounds).returning _

end Follows

end Token
end ScriptHints
