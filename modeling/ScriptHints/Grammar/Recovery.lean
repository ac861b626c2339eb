import ScriptHints.Grammar.Goal

/-!
# Recovery

A statement that cannot be read is skipped. Skipping begins at its first token and ends
behind its semicolon, before the first token of a later line, or before the brace that
closes the block around it; brackets opened on the way are passed over with all that they
hold. A closing brace at the very beginning is passed, so that at least one token is.
-/

namespace ScriptHints
namespace Grammar

open Syntax Token

/-- Where skipping comes to at a token. -/
inductive Skip where
  /-- It has ended before the token. -/
  | before
  /-- It ends behind the token. -/
  | behind
  /-- It goes on behind the token, inside a number of open brackets. -/
  | within (opened : Nat)

/-- The number of tokens that are passed, given how many are passed further on. -/
def Skip.count (further : Nat → Nat) : Skip → Nat
  | .before => 0
  | .behind => 1
  | .within opened => 1 + further opened

def skipAt (opened : Nat) (atStart : Bool) (t : Token) : Skip :=
  match t.kind with
  | .punctuator .openBrace | .punctuator .openParen | .punctuator .openBracket =>
      .within (opened + 1)
  | .punctuator .closeBrace =>
      if opened = 0 then (if atStart then .behind else .before) else .within (opened - 1)
  | .punctuator .closeParen | .punctuator .closeBracket => .within (opened - 1)
  | .punctuator .semicolon => if opened = 0 then .behind else .within opened
  | _ => if opened = 0 && t.newlineBefore && !atStart then .before else .within opened

/-- The number of tokens to skip, inside a number of open brackets. -/
def skipped (opened : Nat) (atStart : Bool) : List Token → Nat
  | [] => 0
  | t :: tokens => (skipAt opened atStart t).count fun opened => skipped opened false tokens

theorem skipped_cons (opened : Nat) (atStart : Bool) (t : Token) (tokens : List Token) :
    skipped opened atStart (t :: tokens) =
      (skipAt opened atStart t).count fun opened => skipped opened false tokens :=
  rfl

theorem skipped_le_length (opened : Nat) (atStart : Bool) (tokens : List Token) :
    skipped opened atStart tokens ≤ tokens.length := by
  induction tokens generalizing opened atStart with
  | nil => exact Nat.le_refl 0
  | cons t tokens ih =>
      rw [skipped_cons, List.length_cons]
      cases skipAt opened atStart t with
      | before => exact Nat.zero_le _
      | behind => exact Nat.le_add_left 1 _
      | within opened =>
          have hmore := ih opened false
          show 1 + skipped opened false tokens ≤ tokens.length + 1
          omega

/-- Skipping never ends before the first token of a statement. -/
theorem skipAt_start_ne_before (opened : Nat) (t : Token) : skipAt opened true t ≠ .before := by
  unfold skipAt
  repeat' split
  case h_4.isTrue.isFalse never => exact absurd rfl never
  case h_8.isTrue never => simp at never
  all_goals exact nofun

theorem skipped_pos (opened : Nat) (t : Token) (tokens : List Token) :
    0 < skipped opened true (t :: tokens) := by
  have hnever := skipAt_start_ne_before opened t
  rw [skipped_cons]
  cases hskip : skipAt opened true t with
  | before => exact absurd hskip hnever
  | behind => exact Nat.one_pos
  | within opened => exact Nat.lt_of_lt_of_le Nat.one_pos (Nat.le_add_right 1 _)

section

variable [Machine]

/-- Moves over the tokens of a statement that begins at `start`, inside a number of open
brackets; no more than the tokens that are left are passed. -/
def skipTokens (c : Context) (start : Nat) : Nat → Nat → Reader Unit
  | 0, _ => discard (peek c)
  | left + 1, opened => do
      match skipAt opened ((← position) = start) (← peek c) with
      | .before => return
      | .behind => advance c
      | .within opened =>
          advance c
          skipTokens c start left opened

/-- The text of the tokens read since the position `start`. -/
def textSince (c : Context) (start : Nat) : Reader String := do
  let stop ← position
  if stop ≤ start then
    return ""
  else
    let first ← Machine.look c.stream start
    let last ← Machine.look c.stream (stop - 1 : Int)
    return c.textBetween first last

/-- Skips a statement that begins at `start`, wherever its reading broke off. -/
def skipStatement (c : Context) (start : Nat) : Reader NodeId := do
  modify fun s => { s with position := start }
  skipTokens c start (c.stream.size - start) 0
  addSince c start (.skipped (← textSince c start))

/-- During recovery a failed reading is reported and its statement skipped. -/
def recovering (c : Context) (read : Reader NodeId) : Reader NodeId := do
  if c.options.recover then
    let start ← position
    Machine.attempt read fun e => do
      let first ← Machine.look c.stream start
      report c .error e.message (Span.ofToken first)
      skipStatement c start
  else
    read

end

end Grammar
end ScriptHints
