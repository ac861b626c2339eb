import ScriptHints.Proofs.Bytes.Slice

/-!
# Scans

A scan moves a cursor over a text. The cursor knows its place by an offset in bytes, and
everything that a scan learns about the text it learns from slices at such offsets. A slice
that is not on character boundaries within the text is a fault, and so is a loop that does
not end with the text. A scan follows a reading if, wherever the cursor stands before the
text of the reading, it has no fault, gives the value of the reading and moves the cursor
over the characters that the reading takes.
-/

namespace ScriptHints
namespace Token

open Text

inductive ScanFault where
  | slice (first last : Nat)
  | endless
deriving DecidableEq, Repr

structure Cursor where
  text : List Char
  place : Place
  newline : Bool
  afterOperand : Bool
deriving DecidableEq, Repr

abbrev Scan :=
  EStateM ScanFault Cursor

namespace Scan

/-!
## Slices
-/

def offset : Scan Nat :=
  return (← get).place.offset

def ahead : Scan (List Char) := do
  let cursor ← get
  match dropBytes? cursor.place.offset cursor.text with
  | some rest => return rest
  | none => throw (.slice cursor.place.offset (String.utf8Len cursor.text))

def slice (first last : Nat) : Scan (List Char) := do
  match slice? first last (← get).text with
  | some part => return part
  | none => throw (.slice first last)

def attemptSlice (first last : Nat) : Scan (Option (List Char)) :=
  return slice? first last (← get).text

/-- What is left of the text behind a number of bytes, if that is not inside a character. -/
def attemptAhead (bytes : Nat) : Scan (Option (List Char)) := do
  let cursor ← get
  return dropBytes? (cursor.place.offset + bytes) cursor.text

/-- The slice that a scan moves over, but for a number of bytes at its beginning. -/
def sliced (lead : Nat) (x : Scan α) : Scan (α × List Char) := do
  let start ← offset
  let value ← x
  let part ← slice (start + lead) (← offset)
  return (value, part)

/-!
## Characters
-/

def peek : Scan (Option Char) :=
  return (← ahead).head?

def peekNext : Scan (Option Char) :=
  return (← ahead).tail.head?

def move (bytes : Nat) : Scan Unit :=
  modify fun cursor =>
    { cursor with place := { cursor.place with offset := cursor.place.offset + bytes } }

/-- Moves over the next character, and over a line feed that completes a carriage return. -/
def advance : Scan (Option Char) := do
  match ← peek with
  | none => return none
  | some c =>
      move c.utf8Size
      if isLineTerminator c then
        if c = '\r' && (← peek) = some '\n' then
          move 1
        modify fun cursor =>
          { cursor with
            place := { cursor.place with line := cursor.place.line + 1, column := 1 } }
      else
        modify fun cursor =>
          { cursor with place := { cursor.place with column := cursor.place.column + 1 } }
      return some c

/-- Moves over characters with a property, at most as many as there are rounds. -/
def skipWithin (p : Char → Bool) : Nat → Scan Unit
  | 0 => throw .endless
  | rounds + 1 => do
      if (← peek).any p then
        let _ ← advance
        skipWithin p rounds

/-- A loop over characters has a round for every character of the text and one for its end. -/
def rounds : Scan Nat :=
  return (← get).text.length + 1

def skip (p : Char → Bool) : Scan Unit := do
  skipWithin p (← rounds)

end Scan

/-!
## Cursors
-/

/-- No carriage return is torn apart from its line feed between the two texts. -/
def Apart (taken rest : List Char) : Prop :=
  ¬ (taken.getLast? = some '\r' ∧ rest.head? = some '\n')

theorem apart_nil (rest : List Char) : Apart [] rest :=
  fun h => nomatch h.1

theorem apart_of_getLast? {taken : List Char} {c : Char} (h : taken.getLast? = some c)
    (hc : c ≠ '\r') (rest : List Char) : Apart taken rest := by
  intro htorn
  rw [h] at htorn
  exact hc (Option.some.inj htorn.1)

theorem Apart.append {taken more rest rest' : List Char} (h : Apart taken rest)
    (hsplits : more ++ rest' = rest) (h' : Apart more rest') : Apart (taken ++ more) rest' := by
  intro htorn
  cases more with
  | nil =>
      rw [List.append_nil] at htorn
      rw [List.nil_append] at hsplits
      rw [hsplits] at htorn
      exact h htorn
  | cons c more =>
      rw [List.getLast?_append_cons] at htorn
      exact h' htorn

theorem Apart.before {taken more rest : List Char} (h : Apart taken (more ++ rest)) :
    Apart taken more := by
  intro htorn
  apply h
  rw [List.head?_append, htorn.2]
  exact ⟨htorn.1, rfl⟩

theorem Apart.tail {c : Char} {taken rest : List Char} (h : Apart (c :: taken) rest) :
    Apart taken rest := by
  intro htorn
  cases taken with
  | nil => exact nomatch htorn.1
  | cons d taken => exact h htorn

theorem Apart.single {c : Char} {taken more : List Char} (h : Apart (c :: taken) more)
    (hsingle : forall text, c = '\r' -> taken = '\n' :: text -> False) (text : List Char)
    (hc : c = '\r') (hfeed : taken ++ more = '\n' :: text) : False := by
  cases taken with
  | nil =>
      rw [List.nil_append] at hfeed
      rw [hc, hfeed] at h
      exact h ⟨rfl, rfl⟩
  | cons d taken =>
      cases hfeed
      exact hsingle taken hc rfl

theorem after_single (p : Place) (c : Char) :
    p.after [c] =
      if isLineTerminator c then ⟨p.line + 1, 1, p.offset + c.utf8Size⟩
      else ⟨p.line, p.column + 1, p.offset + c.utf8Size⟩ := by
  rw [Place.after, Place.after_nil, Place.after_nil]
  intro more hreturn hfeed
  cases hfeed

theorem after_append (p : Place) {taken more : List Char} (h : Apart taken more) :
    (p.after taken).after more = p.after (taken ++ more) := by
  fun_induction Place.after p taken with
  | case1 => rfl
  | case2 p taken ih =>
      rw [ih h.tail.tail, List.cons_append, List.cons_append, Place.after]
  | case3 p c taken hsingle hterminator ih =>
      rw [ih h.tail, List.cons_append, Place.after, if_pos hterminator]
      exact h.single hsingle
  | case4 p c taken hsingle hother ih =>
      rw [ih h.tail, List.cons_append, Place.after, if_neg hother]
      exact h.single hsingle

namespace Cursor

structure Stands (cursor : Cursor) (front rest : List Char) : Prop where
  text : cursor.text = front ++ rest
  offset : cursor.place.offset = String.utf8Len front

/-- The cursor behind characters; a line may have ended among them that counts. -/
def past (cursor : Cursor) (taken : List Char) (breaks : Bool) : Cursor :=
  { cursor with
    place := cursor.place.after taken
    newline := cursor.newline || breaks }

theorem past_nil (cursor : Cursor) : cursor.past [] false = cursor := by
  simp [past]

theorem Stands.past {cursor : Cursor} {front taken rest : List Char}
    (h : cursor.Stands front (taken ++ rest)) (breaks : Bool) :
    (cursor.past taken breaks).Stands (front ++ taken) rest where
  text := by
    rw [List.append_assoc]
    exact h.text
  offset := by
    show (cursor.place.after taken).offset = _
    rw [offset_after, h.offset, String.utf8Len_append]

end Cursor

/-!
## Scans that follow readings
-/

structure Follows (x : Scan α) (text : List Char) (r : Reading α) (breaks : Bool) : Prop where
  scans : forall cursor front, cursor.Stands front text ->
    x cursor = .ok r.value (cursor.past r.taken breaks)
  splits : r.Splits text
  apart : Apart r.taken r.rest

namespace Follows

theorem bind_ok {x : Scan α} {f : α → Scan β} {cursor cursor' : Cursor} {a : α}
    (h : x cursor = .ok a cursor') : (x >>= f) cursor = f a cursor' := by
  show EStateM.bind x f cursor = _
  simp only [EStateM.bind, h]

variable {x : Scan α} {text : List Char} {r : Reading α} {breaks : Bool}

theorem pure (a : α) (text : List Char) : Follows (pure a) text ⟨a, [], text⟩ false where
  scans cursor front _ := by
    show EStateM.Result.ok a cursor = _
    simp [Cursor.past]
  splits := rfl
  apart := apart_nil text

theorem bind {f : α → Scan β} {b : β} {more rest : List Char} {breaks' : Bool}
    (h : Follows x text r breaks) (hf : Follows (f r.value) r.rest ⟨b, more, rest⟩ breaks') :
    Follows (x >>= f) text ⟨b, r.taken ++ more, rest⟩ (breaks || breaks') where
  scans cursor front hstands := by
    rw [← h.splits] at hstands
    have hpast := hstands.past breaks
    rw [h.splits] at hstands
    have hmore : more ++ rest = r.rest := hf.splits
    have hbefore : Apart r.taken (more ++ rest) := by
      rw [hmore]
      exact h.apart
    have happart : Apart r.taken more := hbefore.before
    rw [bind_ok (h.scans cursor front hstands), hf.scans _ _ hpast]
    simp only [Cursor.past, after_append _ happart, Bool.or_assoc]
  splits := by
    have hsplits : r.taken ++ r.rest = text := h.splits
    rw [← hsplits]
    exact hf.splits.extend r.taken
  apart := h.apart.append hf.splits hf.apart

theorem andThen {f : α → Scan β} {b : β} {more rest : List Char} (h : Follows x text r false)
    (hf : Follows (f r.value) r.rest ⟨b, more, rest⟩ breaks) :
    Follows (x >>= f) text ⟨b, r.taken ++ more, rest⟩ breaks := by
  have hbind := h.bind hf
  rw [Bool.false_or] at hbind
  exact hbind

theorem of_breaks {breaks' : Bool} (h : Follows x text r breaks) (hbreaks : breaks = breaks') :
    Follows x text r breaks' := by
  rw [← hbreaks]
  exact h

theorem of_eq {r' : Reading α} (h : Follows x text r breaks) (hr : r = r') :
    Follows x text r' breaks := by
  rw [← hr]
  exact h

theorem thenReturn {f : α → Scan β} {b : β} (h : Follows x text r breaks)
    (hf : f r.value = Pure.pure b) : Follows (x >>= f) text ⟨b, r.taken, r.rest⟩ breaks := by
  have hreturns : Follows (f r.value) r.rest ⟨b, [], r.rest⟩ false := by
    rw [hf]
    exact pure b r.rest
  have hbind := h.bind hreturns
  rw [List.append_nil, Bool.or_false] at hbind
  exact hbind

theorem returning (h : Follows x text r breaks) (f : α → β) :
    Follows (x >>= fun a => Pure.pure (f a)) text (r.map f) breaks :=
  h.thenReturn rfl

theorem map (h : Follows x text r breaks) (f : α → β) :
    Follows (f <$> x) text (r.map f) breaks := by
  rw [map_eq_pure_bind]
  exact h.returning f

/-!
### Looking
-/

theorem ahead (text : List Char) : Follows Scan.ahead text ⟨text, [], text⟩ false where
  scans cursor front h := by
    have hdrop : dropBytes? cursor.place.offset cursor.text = some text := by
      rw [h.text, h.offset, dropBytes?_append]
    unfold Scan.ahead
    rw [bind_ok (x := get) (a := cursor) rfl, hdrop]
    exact (pure text text).scans cursor front h
  splits := rfl
  apart := apart_nil text

theorem peek (text : List Char) : Follows Scan.peek text ⟨text.head?, [], text⟩ false := by
  unfold Scan.peek
  exact (ahead text).andThen (pure text.head? text)

theorem peekNext (text : List Char) :
    Follows Scan.peekNext text ⟨text.tail.head?, [], text⟩ false := by
  unfold Scan.peekNext
  exact (ahead text).andThen (pure text.tail.head? text)

theorem peekThen {f : Option Char → Scan α} (h : Follows (f text.head?) text r breaks) :
    Follows (Scan.peek >>= f) text r breaks :=
  (peek text).andThen h

theorem peekNextThen {f : Option Char → Scan α} (h : Follows (f text.tail.head?) text r breaks) :
    Follows (Scan.peekNext >>= f) text r breaks :=
  (peekNext text).andThen h

/-!
### Moving
-/

theorem advance_nil : Follows Scan.advance [] ⟨none, [], []⟩ false := by
  unfold Scan.advance
  exact peekThen (pure none [])

/-- What is known once the next character has been passed by its bytes. -/
theorem peek_moved {cursor : Cursor} {c : Char} {front text : List Char}
    (h : cursor.Stands front (c :: text)) :
    Scan.peek { cursor with
      place := { cursor.place with offset := cursor.place.offset + c.utf8Size } } =
      .ok text.head? { cursor with
        place := { cursor.place with offset := cursor.place.offset + c.utf8Size } } := by
  have hmoved : Cursor.Stands { cursor with
      place := { cursor.place with offset := cursor.place.offset + c.utf8Size } }
      (front ++ [c]) text := by
    constructor
    · rw [List.append_assoc]
      exact h.text
    · rw [String.utf8Len_append, ← h.offset]
      simp
  rw [(peek text).scans _ _ hmoved, Cursor.past_nil]

theorem advance_inline {c : Char} (hc : isLineTerminator c = false) (text : List Char) :
    Follows Scan.advance (c :: text) ⟨some c, [c], text⟩ false where
  scans cursor front h := by
    unfold Scan.advance
    rw [bind_ok ((peek (c :: text)).scans cursor front h), Cursor.past_nil]
    simp only [List.head?_cons, hc, Bool.false_eq_true, if_false]
    simp only [Cursor.past, after_single, hc, Bool.false_eq_true, if_false, Bool.or_false]
    rfl
  splits := rfl
  apart := by
    intro htorn
    have hreturn : c = '\r' := Option.some.inj htorn.1
    rw [hreturn] at hc
    cases hc

theorem advance_terminator {c : Char} (hc : isLineTerminator c = true) {text : List Char}
    (hsingle : ¬ (c = '\r' ∧ text.head? = some '\n')) :
    Follows Scan.advance (c :: text) ⟨some c, [c], text⟩ false where
  scans cursor front h := by
    unfold Scan.advance
    rw [bind_ok ((peek (c :: text)).scans cursor front h), Cursor.past_nil]
    simp only [List.head?_cons, hc, if_true]
    show (Scan.peek >>= _) _ = _
    rw [bind_ok (peek_moved h), if_neg (by simpa using hsingle)]
    simp only [Cursor.past, after_single, hc, if_true, Bool.or_false]
    rfl
  splits := rfl
  apart htorn := hsingle ⟨Option.some.inj htorn.1, htorn.2⟩

theorem advance_pair (text : List Char) :
    Follows Scan.advance ('\r' :: '\n' :: text) ⟨some '\r', ['\r', '\n'], text⟩ false where
  scans cursor front h := by
    unfold Scan.advance
    rw [bind_ok ((peek ('\r' :: '\n' :: text)).scans cursor front h), Cursor.past_nil]
    have hreturn : isLineTerminator '\r' = true := by decide
    simp only [List.head?_cons, hreturn, if_true]
    show (Scan.peek >>= _) _ = _
    rw [bind_ok (peek_moved h), if_pos (by simp)]
    simp only [Cursor.past, Bool.or_false]
    rw [Place.after, Place.after_nil]
    rfl
  splits := rfl
  apart := apart_of_getLast? rfl (by decide) text

theorem advanceThen {c : Char} (hc : isLineTerminator c = false) {f : Option Char → Scan α}
    {a : α} {taken rest : List Char} (h : Follows (f (some c)) text ⟨a, taken, rest⟩ breaks) :
    Follows (Scan.advance >>= f) (c :: text) ⟨a, c :: taken, rest⟩ breaks :=
  (advance_inline hc text).andThen h

/-!
### Loops
-/

theorem roundsThen {f : Nat → Scan α}
    (h : forall rounds, text.length < rounds -> Follows (f rounds) text r breaks) :
    Follows (Scan.rounds >>= f) text r breaks where
  scans cursor front hstands := by
    have hrounds : text.length < cursor.text.length + 1 := by
      rw [hstands.text, List.length_append]
      omega
    exact (h _ hrounds).scans cursor front hstands
  splits := (h _ (Nat.lt_succ_self _)).splits
  apart := (h _ (Nat.lt_succ_self _)).apart

theorem skip {p : Char → Bool} (hp : forall c, p c = true -> isLineTerminator c = false)
    (text : List Char) : Follows (Scan.skip p) text (Reading.run p text) false := by
  unfold Scan.skip
  apply roundsThen
  intro rounds hrounds
  induction rounds generalizing text with
  | zero => exact absurd hrounds (Nat.not_lt_zero _)
  | succ rounds ih =>
      unfold Scan.skipWithin
      apply peekThen
      cases text with
      | nil => exact pure () []
      | cons c text =>
          cases hc : p c with
          | false =>
              have hstop : Reading.run p (c :: text) = ⟨(), [], c :: text⟩ := by
                simp [Reading.run, hc]
              rw [hstop, List.head?_cons]
              simp only [Option.any_some, hc, Bool.false_eq_true, if_false]
              exact pure () (c :: text)
          | true =>
              have hgo : Reading.run p (c :: text) = (Reading.run p text).extend [c] := by
                simp [Reading.run, Reading.extend, hc]
              rw [hgo, List.head?_cons]
              simp only [Option.any_some, hc, if_true]
              exact advanceThen (hp c hc) (ih text (Nat.lt_of_succ_lt_succ hrounds))

/-!
### Slices
-/

theorem slice_ok (cursor : Cursor) {first last : Nat} {part : List Char}
    (h : slice? first last cursor.text = some part) :
    Scan.slice first last cursor = .ok part cursor := by
  unfold Scan.slice
  rw [bind_ok (x := get) (a := cursor) rfl, h]
  rfl

theorem attemptSliceThen {f : Option (List Char) → Scan α} {count : Nat}
    (h : Follows (f (takeBytes? count text)) text r breaks) :
    Follows (Scan.offset >>= fun start => Scan.attemptSlice start (start + count) >>= f) text r
      breaks where
  scans cursor front hstands := by
    have hslice : slice? cursor.place.offset (cursor.place.offset + count) cursor.text =
        takeBytes? count text := by
      unfold slice?
      rw [if_pos (Nat.le_add_right _ _), hstands.text, hstands.offset, dropBytes?_append,
        Nat.add_sub_cancel_left]
      rfl
    have hscans := h.scans cursor front hstands
    rw [← hslice] at hscans
    exact hscans
  splits := h.splits
  apart := h.apart

theorem attemptAheadThen {f : Option (List Char) → Scan α} {l rest : List Char} {bytes : Nat}
    (hbytes : String.utf8Len l = bytes)
    (h : Follows (f (some rest)) (l ++ rest) r breaks) :
    Follows (Scan.attemptAhead bytes >>= f) (l ++ rest) r breaks where
  scans cursor front hstands := by
    have hrest : dropBytes? (cursor.place.offset + bytes) cursor.text = some rest := by
      rw [hstands.text, hstands.offset, ← hbytes, ← String.utf8Len_append, ← List.append_assoc,
        dropBytes?_append]
    have hscans := h.scans cursor front hstands
    rw [← hrest] at hscans
    exact hscans
  splits := h.splits
  apart := h.apart

theorem sliced {l part : List Char} (h : Follows x text r breaks)
    (htaken : r.taken = l ++ part) {bytes : Nat} (hbytes : String.utf8Len l = bytes) :
    Follows (Scan.sliced bytes x) text (r.map fun a => (a, part)) breaks where
  scans cursor front hstands := by
    have hsplits : text = (l ++ part) ++ r.rest := by
      rw [← htaken]
      exact h.splits.symm
    have hpart : slice? (cursor.place.offset + bytes) (cursor.past r.taken breaks).place.offset
        cursor.text = some part := by
      have hstart : cursor.place.offset + bytes = String.utf8Len (front ++ l) := by
        rw [hstands.offset, String.utf8Len_append, hbytes]
      have hstop : (cursor.past r.taken breaks).place.offset =
          String.utf8Len (front ++ l) + String.utf8Len part := by
        show (cursor.place.after r.taken).offset = _
        rw [offset_after, hstands.offset, htaken, String.utf8Len_append, String.utf8Len_append]
        omega
      have htext : cursor.text = (front ++ l) ++ (part ++ r.rest) := by
        rw [hstands.text, hsplits]
        simp only [List.append_assoc]
      rw [hstart, hstop, htext, slice?_append]
    unfold Scan.sliced
    rw [bind_ok (x := Scan.offset) (a := cursor.place.offset) rfl,
      bind_ok (h.scans cursor front hstands),
      bind_ok (x := Scan.offset) (a := (cursor.past r.taken breaks).place.offset) rfl,
      bind_ok (slice_ok (cursor.past r.taken breaks) hpart)]
    rfl
  splits := h.splits
  apart := h.apart

end Follows

end Token
end ScriptHints
