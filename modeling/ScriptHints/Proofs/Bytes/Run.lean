import ScriptHints.Proofs.Bytes.Items

/-!
# Scans of whole texts

A scan of a whole text goes from item to item, and slices a lexeme out of the text for every
token. It follows the lexer: as often as both are asked for tokens they give the same
answers, so that no slice is ever off the boundaries of characters, and no loop goes on
behind the end of the text.
-/

namespace ScriptHints
namespace Token

open Text

namespace Scan

/-- A token from a start to where the cursor stands. A line that ended is forgotten. -/
def tokenSince (start : Cursor) (kind : TokenKind) : Scan Token := do
  let lexeme ← slice start.place.offset (← offset)
  modify fun cursor => { cursor with newline := false }
  return { kind := kind, lexeme := String.ofList lexeme, place := start.place,
           newlineBefore := start.newline }

/-- The tokens from an item on, given how the scan goes on behind the item. -/
def runOn (further : Scan (Except LexicalError (List Token × Token))) (start : Cursor) :
    Item → Scan (Except LexicalError (List Token × Token))
  | .fault fault => return .error { fault := fault, place := start.place }
  | .trivia => further
  | .token kind => do
      let token ← tokenSince start kind
      modify fun cursor => { cursor with afterOperand := kind.endsOperand }
      let result ← further
      return result.map fun (body, stop) => (token :: body, stop)

def runWithin : Nat → Scan (Except LexicalError (List Token × Token))
  | 0 => throw .endless
  | rounds + 1 => do
      let start ← get
      match ← peek with
      | none => return .ok ([], ← tokenSince start .endOfText)
      | some c => runOn (runWithin rounds) start (← item start.afterOperand c)

def tokenize : Scan (Except LexicalError TokenStream) := do
  let result ← runWithin (← rounds)
  return result.map fun (body, stop) => { body := body.toArray, stop := stop }

def calls : Nat → Scan (List (Except LexicalError TokenStream))
  | 0 => return []
  | count + 1 => do
      let result ← tokenize
      return result :: (← calls count)

end Scan

namespace Lexer

def calls (l : Lexer) : Nat → List (Except LexicalError TokenStream)
  | 0 => []
  | count + 1 => l.tokenize.1 :: l.tokenize.2.calls count

/-- The cursor that stands where a lexer does, behind a text that it has read. -/
def cursor (l : Lexer) (front : List Char) : Cursor :=
  { text := front ++ l.rest, place := l.place, newline := l.newline,
    afterOperand := l.afterOperand }

def Behind (l : Lexer) (front : List Char) : Prop :=
  l.place.offset = String.utf8Len front

end Lexer

namespace Cursor

def ofText (text : String) : Cursor :=
  { text := text.toList, place := Place.start, newline := false, afterOperand := false }

end Cursor

open Follows (bind_ok)

variable {l : Lexer} {front : List Char}

theorem Lexer.Behind.stands (h : l.Behind front) : (l.cursor front).Stands front l.rest :=
  ⟨rfl, h⟩

theorem Lexer.Behind.after (h : l.Behind front) (r : Reading Item) :
    (l.after r).Behind (front ++ r.taken) := by
  show (l.place.after r.taken).offset = _
  rw [offset_after, String.utf8Len_append, h]

/-- The item that comes next moves the cursor as it moves the lexer. -/
theorem scan_item (h : l.Behind front) {c : Char} {text : List Char}
    (hrest : l.rest = c :: text) :
    Scan.item l.afterOperand c (l.cursor front) =
      .ok (item l.afterOperand c text).value
        ((l.cursor front).past (item l.afterOperand c text).taken
          (Lexer.breaksLine (item l.afterOperand c text).value
            (item l.afterOperand c text).taken)) := by
  have hstands := h.stands
  rw [hrest] at hstands
  exact (Follows.item l.afterOperand c text).scans _ _ hstands

theorem scan_peek (h : l.Behind front) :
    Scan.peek (l.cursor front) = .ok l.rest.head? (l.cursor front) := by
  rw [(Follows.peek l.rest).scans _ _ h.stands, Cursor.past_nil]

theorem cursor_after (front : List Char) {c : Char} {text : List Char}
    (hrest : l.rest = c :: text) :
    (l.after (item l.afterOperand c text)).cursor
        (front ++ (item l.afterOperand c text).taken) =
      { (l.cursor front).past (item l.afterOperand c text).taken false with
        newline := (l.after (item l.afterOperand c text)).newline
        afterOperand := (l.after (item l.afterOperand c text)).afterOperand } := by
  have hsplits : (item l.afterOperand c text).taken ++ (item l.afterOperand c text).rest =
      c :: text := splits_item l.afterOperand c text
  have htext : (front ++ (item l.afterOperand c text).taken) ++
      (item l.afterOperand c text).rest = front ++ l.rest := by
    rw [List.append_assoc, hsplits, hrest]
  simp only [Lexer.cursor, Cursor.past, Lexer.after, htext]

theorem tokenSince_ok {start cursor : Cursor} {kind : TokenKind} {lexeme : List Char}
    (h : slice? start.place.offset cursor.place.offset cursor.text = some lexeme) :
    Scan.tokenSince start kind cursor =
      .ok ⟨kind, String.ofList lexeme, start.place, start.newline⟩
        { cursor with newline := false } := by
  unfold Scan.tokenSince
  rw [bind_ok (x := Scan.offset) (a := cursor.place.offset) rfl,
    bind_ok (Follows.slice_ok cursor h)]
  rfl

theorem runOn_token {further : Scan (Except LexicalError (List Token × Token))}
    {start cursor cursor' : Cursor} {kind : TokenKind} {lexeme : List Char}
    {result : Except LexicalError (List Token × Token)}
    (h : slice? start.place.offset cursor.place.offset cursor.text = some lexeme)
    (hfurther : further { cursor with newline := false, afterOperand := kind.endsOperand } =
      .ok result cursor') :
    Scan.runOn further start (.token kind) cursor =
      .ok (result.map fun (body, stop) =>
        (⟨kind, String.ofList lexeme, start.place, start.newline⟩ :: body, stop)) cursor' := by
  show (Scan.tokenSince start kind >>= fun token => _) cursor = _
  rw [bind_ok (tokenSince_ok h), bind_ok (x := modify _) (a := ()) rfl, bind_ok hfurther]
  rfl

theorem slice?_item (h : l.Behind front) {c : Char} {text : List Char}
    (hrest : l.rest = c :: text) :
    slice? l.place.offset (l.place.after (item l.afterOperand c text).taken).offset
      (front ++ l.rest) = some (item l.afterOperand c text).taken := by
  have hsplits : (item l.afterOperand c text).taken ++ (item l.afterOperand c text).rest =
      c :: text := splits_item l.afterOperand c text
  rw [offset_after, h, hrest, ← hsplits, slice?_append]

theorem length_rest_item_lt {c : Char} {text : List Char} (hrest : l.rest = c :: text)
    (hfault : (item l.afterOperand c text).value ≠ .fault (.unexpectedCharacter c)) :
    (item l.afterOperand c text).rest.length < l.rest.length := by
  rw [hrest]
  exact (splits_item l.afterOperand c text).length_rest_lt
    (taken_item_ne_nil l.afterOperand c text hfault)

theorem runWithin_item (h : l.Behind front) {c : Char} {text : List Char}
    (hrest : l.rest = c :: text) (rounds : Nat) :
    Scan.runWithin (rounds + 1) (l.cursor front) =
      Scan.runOn (Scan.runWithin rounds) (l.cursor front) (item l.afterOperand c text).value
        ((l.cursor front).past (item l.afterOperand c text).taken
          (Lexer.breaksLine (item l.afterOperand c text).value
            (item l.afterOperand c text).taken)) := by
  rw [Scan.runWithin, bind_ok (x := get) (a := l.cursor front) rfl, bind_ok (scan_peek h), hrest]
  exact bind_ok (scan_item h hrest)

/-- A run of a scan gives what the run of the lexer gives, and stops where it stops. -/
theorem runWithin_ok (l : Lexer) (front : List Char) (h : l.Behind front) (rounds : Nat)
    (hrounds : l.rest.length < rounds) :
    exists behind, l.run.2.Behind behind ∧ behind ++ l.run.2.rest = front ++ l.rest ∧
      Scan.runWithin rounds (l.cursor front) = .ok l.run.1 (l.run.2.cursor behind) := by
  fun_induction Lexer.run l generalizing front rounds with
  | case1 l hrest =>
      rcases rounds with _ | rounds
      · exact absurd hrounds (Nat.not_lt_zero _)
      have hslice : slice? l.place.offset l.place.offset (front ++ l.rest) = some [] := by
        rw [h, hrest]
        exact slice?_append front [] []
      refine ⟨front, h, ?_, ?_⟩
      · rw [hrest]
      unfold Scan.runWithin
      rw [bind_ok (x := get) (a := l.cursor front) rfl, bind_ok (scan_peek h), hrest]
      show (Scan.tokenSince (l.cursor front) .endOfText >>= _) (l.cursor front) = _
      rw [bind_ok (tokenSince_ok hslice)]
      unfold Lexer.cursor
      rw [hrest]
      rfl
  | case2 l c text hrest found fault hvalue =>
      rcases rounds with _ | rounds
      · exact absurd hrounds (Nat.not_lt_zero _)
      have hcursor := cursor_after front hrest
      refine ⟨front ++ found.taken, h.after found, congrArg Cursor.text hcursor, ?_⟩
      have hmoved : (l.cursor front).past found.taken
        (Lexer.breaksLine (.fault fault) found.taken) =
          (l.after found).cursor (front ++ found.taken) := by
        rw [hcursor]
        simp only [Lexer.after, hvalue, found]
        rfl
      rw [runWithin_item h hrest]
      show Scan.runOn _ _ found.value (Cursor.past _ found.taken
        (Lexer.breaksLine found.value _)) = _
      rw [hvalue, hmoved]
      rfl
  | case3 l c text hrest found hvalue ih =>
      rcases rounds with _ | rounds
      · exact absurd hrounds (Nat.not_lt_zero _)
      have hcursor := cursor_after front hrest
      have hmoved : (l.cursor front).past found.taken (Lexer.breaksLine .trivia found.taken) =
          (l.after found).cursor (front ++ found.taken) := by
        rw [hcursor]
        simp only [Lexer.after, hvalue, found]
        rfl
      have hless : found.rest.length < rounds := by
        have hlt := length_rest_item_lt hrest
          (by rw [show (item l.afterOperand c text).value = _ from hvalue]; simp)
        exact Nat.lt_of_lt_of_le hlt (Nat.le_of_lt_succ hrounds)
      rcases ih (front ++ found.taken) (h.after found) rounds hless with
        ⟨behind, hbehind, htext, hrun⟩
      refine ⟨behind, hbehind, htext.trans (congrArg Cursor.text hcursor), ?_⟩
      rw [runWithin_item h hrest]
      show Scan.runOn _ _ found.value (Cursor.past _ found.taken
        (Lexer.breaksLine found.value _)) = _
      rw [hvalue, hmoved]
      exact hrun
  | case4 l c text hrest found kind hvalue result last hrun ih =>
      rcases rounds with _ | rounds
      · exact absurd hrounds (Nat.not_lt_zero _)
      have hcursor := cursor_after front hrest
      have hless : found.rest.length < rounds := by
        have hlt := length_rest_item_lt hrest
          (by rw [show (item l.afterOperand c text).value = _ from hvalue]; simp)
        exact Nat.lt_of_lt_of_le hlt (Nat.le_of_lt_succ hrounds)
      rcases ih (front ++ found.taken) (h.after found) rounds hless with
        ⟨behind, hbehind, htext, hran⟩
      rw [hrun] at hbehind htext hran
      refine ⟨behind, hbehind, htext.trans (congrArg Cursor.text hcursor), ?_⟩
      rw [runWithin_item h hrest]
      show Scan.runOn _ _ found.value (Cursor.past _ found.taken
        (Lexer.breaksLine found.value _)) = _
      have hmoved : { (l.cursor front).past found.taken
            (Lexer.breaksLine (.token kind) found.taken) with
            newline := false, afterOperand := kind.endsOperand } =
          (l.after found).cursor (front ++ found.taken) := by
        rw [hcursor]
        simp only [Lexer.after, hvalue, found]
        rfl
      rw [← hmoved] at hran
      rw [hvalue, runOn_token (slice?_item h hrest) hran]
      rfl

/-!
## Calls
-/

theorem tokenize_ok (l : Lexer) (front : List Char) (h : l.Behind front) :
    exists behind, l.tokenize.2.Behind behind ∧
      Scan.tokenize (l.cursor front) = .ok l.tokenize.1 (l.tokenize.2.cursor behind) := by
  have hrounds : l.rest.length < (l.cursor front).text.length + 1 := by
    show l.rest.length < (front ++ l.rest).length + 1
    rw [List.length_append]
    omega
  rcases runWithin_ok l front h _ hrounds with ⟨behind, hbehind, _, hrun⟩
  refine ⟨behind, hbehind, ?_⟩
  show (Scan.runWithin ((l.cursor front).text.length + 1) >>= _) (l.cursor front) = _
  rw [bind_ok hrun]
  rfl

/-- However often tokens are asked for, no slice is off the boundaries of characters. -/
theorem calls_ok (l : Lexer) (front : List Char) (h : l.Behind front) (count : Nat) :
    exists cursor, Scan.calls count (l.cursor front) = .ok (l.calls count) cursor := by
  induction count generalizing l front with
  | zero => exact ⟨l.cursor front, rfl⟩
  | succ count ih =>
      rcases tokenize_ok l front h with ⟨behind, hbehind, htokens⟩
      rcases ih l.tokenize.2 behind hbehind with ⟨cursor, hcalls⟩
      refine ⟨cursor, ?_⟩
      unfold Scan.calls
      rw [bind_ok htokens, bind_ok hcalls]
      rfl

theorem calls_ofText (text : String) (count : Nat) :
    exists cursor, Scan.calls count (Cursor.ofText text) =
      .ok ((Lexer.ofText text).calls count) cursor :=
  calls_ok (Lexer.ofText text) [] rfl count

end Token
end ScriptHints
