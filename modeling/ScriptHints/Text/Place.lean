/-!
# Places in a text

A place is a line and a column, both counted from one, and an offset in bytes of
UTF-8. Columns count characters. Four characters end a line, and a carriage return
with a line feed behind it ends one line, not two.
-/

namespace ScriptHints
namespace Text

def isLineTerminator (c : Char) : Bool :=
  c = '\n' || c = '\r' || c = '\u2028' || c = '\u2029'

structure Place where
  line : Nat
  column : Nat
  offset : Nat
deriving DecidableEq, Repr

namespace Place

def start : Place :=
  ⟨1, 1, 0⟩

/-- The place reached from `p` by reading a text. -/
def after (p : Place) : List Char → Place
  | [] => p
  | '\r' :: '\n' :: text => after ⟨p.line + 1, 1, p.offset + 2⟩ text
  | c :: text =>
      if isLineTerminator c then
        after ⟨p.line + 1, 1, p.offset + c.utf8Size⟩ text
      else
        after ⟨p.line, p.column + 1, p.offset + c.utf8Size⟩ text

@[simp] theorem after_nil (p : Place) : p.after [] = p := by
  rw [after]

end Place

/-!
## Slices by byte offset

The part of a text between two offsets. An offset inside a character cuts behind
that character.
-/

def dropBytes : Nat → List Char → List Char
  | 0, text => text
  | _ + 1, [] => []
  | n + 1, c :: text => dropBytes (n + 1 - c.utf8Size) text

def takeBytes : Nat → List Char → List Char
  | 0, _ => []
  | _ + 1, [] => []
  | n + 1, c :: text => c :: takeBytes (n + 1 - c.utf8Size) text

def slice (first last : Nat) (text : List Char) : List Char :=
  takeBytes (last - first) (dropBytes first text)

theorem takeBytes_append_dropBytes (n : Nat) (text : List Char) :
    takeBytes n text ++ dropBytes n text = text := by
  fun_induction dropBytes n text with
  | case1 text => simp [takeBytes]
  | case2 n => simp [takeBytes]
  | case3 n c text ih => simp [takeBytes, ih]

end Text
end ScriptHints
