/-!
# Readings

Every scanner of this folder reads a piece off the front of a text. A reading holds
what the piece means, the characters that were taken and what is left. The law of all
scanners is that nothing is lost: the characters taken, followed by what is left, are
the text.
-/

namespace ScriptHints
namespace Token

structure Reading (α : Type) where
  value : α
  taken : List Char
  rest : List Char
deriving Repr

namespace Reading

def Splits (r : Reading α) (text : List Char) : Prop :=
  r.taken ++ r.rest = text

def map (f : α → β) (r : Reading α) : Reading β :=
  { r with value := f r.value }

/-- The reading of a longer text that begins with `front`. -/
def extend (front : List Char) (r : Reading α) : Reading α :=
  { r with taken := front ++ r.taken }

/-- The longest piece of characters with a property. -/
def run (p : Char → Bool) (text : List Char) : Reading Unit :=
  ⟨(), text.takeWhile p, text.dropWhile p⟩

theorem splits_run (p : Char → Bool) (text : List Char) :
    (Reading.run p text).Splits text := by
  simp [Splits, Reading.run]

theorem Splits.map {r : Reading α} {text : List Char} (h : r.Splits text) (f : α → β) :
    (r.map f).Splits text :=
  h

theorem Splits.extend {r : Reading α} {text : List Char} (h : r.Splits text)
    (front : List Char) : (r.extend front).Splits (front ++ text) := by
  simpa [Splits, Reading.extend] using h

theorem Splits.length_rest_le {r : Reading α} {text : List Char} (h : r.Splits text) :
    r.rest.length ≤ text.length := by
  rw [← h]
  simp

theorem Splits.length_rest_lt {r : Reading α} {text : List Char} (h : r.Splits text)
    (nonempty : r.taken ≠ []) : r.rest.length < text.length := by
  rw [← h]
  have := List.length_pos_iff.mpr nonempty
  simp
  omega

end Reading
end Token
end ScriptHints
