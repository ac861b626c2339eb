import Mathlib.Data.String.Basic
import Mathlib.Tactic.SplitIfs

/-!
# The order of bytes

In UTF-8 a smaller code point has smaller bytes, and the bytes of no character begin those of
another one. So texts have the same order by their characters and by their bytes.
-/

namespace ScriptHints
namespace Text

def utf8Bytes (text : String) : List UInt8 :=
  text.toUTF8.data.toList

theorem utf8Bytes_eq (text : String) :
    utf8Bytes text = text.toList.flatMap String.utf8EncodeChar := by
  unfold utf8Bytes
  rw [String.toUTF8_eq_toByteArray, ← String.utf8Encode_toList]
  simp [List.utf8Encode]

theorem cons_lt_cons_of_le {a b : Nat} {x y : List UInt8} (hb : b < 256) (hle : a ≤ b)
    (h : a = b -> x < y) : UInt8.ofNat a :: x < UInt8.ofNat b :: y := by
  apply List.cons_lt_cons_iff.mpr
  rcases Nat.lt_or_eq_of_le hle with hlt | heq
  · left
    rw [UInt8.lt_iff_toNat_lt, UInt8.toNat_ofNat', UInt8.toNat_ofNat']
    omega
  · exact .inr ⟨congrArg UInt8.ofNat heq, h heq⟩

/-- The bytes of a smaller character come first, whatever stands behind them. -/
theorem utf8EncodeChar_append_lt {c d : Char} (h : c < d) (x y : List UInt8) :
    String.utf8EncodeChar c ++ x < String.utf8EncodeChar d ++ y := by
  have hless : c.val.toNat < d.val.toNat := h
  have hbound : d.val.toNat < 0x110000 := by
    have hvalid := d.valid
    simp only [UInt32.isValidChar, Nat.isValidChar] at hvalid
    omega
  unfold String.utf8EncodeChar
  generalize c.val.toNat = m at hless
  generalize d.val.toNat = n at hless hbound
  dsimp only
  -- A character that takes more bytes has a larger first byte.
  by_cases hone : m ≤ 127
  · simp only [if_pos hone]
    split_ifs
    all_goals exact cons_lt_cons_of_le (by omega) (by omega) fun heq => absurd heq (by omega)
  have hone' : ¬ n ≤ 127 := by omega
  simp only [if_neg hone, if_neg hone']
  by_cases htwo : m ≤ 2047
  · simp only [if_pos htwo]
    split_ifs
    · refine cons_lt_cons_of_le (by omega) (by omega) fun hfirst => ?_
      exact cons_lt_cons_of_le (by omega) (by omega) fun heq => absurd heq (by omega)
    all_goals exact cons_lt_cons_of_le (by omega) (by omega) fun heq => absurd heq (by omega)
  have htwo' : ¬ n ≤ 2047 := by omega
  simp only [if_neg htwo, if_neg htwo']
  by_cases hthree : m ≤ 65535
  · simp only [if_pos hthree]
    split_ifs
    · refine cons_lt_cons_of_le (by omega) (by omega) fun hfirst => ?_
      refine cons_lt_cons_of_le (by omega) (by omega) fun hsecond => ?_
      exact cons_lt_cons_of_le (by omega) (by omega) fun heq => absurd heq (by omega)
    · exact cons_lt_cons_of_le (by omega) (by omega) fun heq => absurd heq (by omega)
  have hthree' : ¬ n ≤ 65535 := by omega
  simp only [if_neg hthree, if_neg hthree']
  refine cons_lt_cons_of_le (by omega) (by omega) fun hfirst => ?_
  refine cons_lt_cons_of_le (by omega) (by omega) fun hsecond => ?_
  refine cons_lt_cons_of_le (by omega) (by omega) fun hthird => ?_
  exact cons_lt_cons_of_le (by omega) (by omega) fun heq => absurd heq (by omega)

theorem utf8EncodeChar_ne_nil (c : Char) : String.utf8EncodeChar c ≠ [] := by
  unfold String.utf8EncodeChar
  dsimp only
  split_ifs
  all_goals exact List.cons_ne_nil _ _

theorem flatMap_utf8EncodeChar_lt {front text : List Char} (h : front < text) :
    front.flatMap String.utf8EncodeChar < text.flatMap String.utf8EncodeChar := by
  induction front generalizing text with
  | nil =>
      cases text with
      | nil => exact absurd h (List.lt_irrefl _)
      | cons d text =>
          rw [List.flatMap_nil, List.flatMap_cons]
          cases hbytes : String.utf8EncodeChar d with
          | nil => exact absurd hbytes (utf8EncodeChar_ne_nil d)
          | cons b bytes => exact List.nil_lt_cons _ _
  | cons c front ih =>
      cases text with
      | nil => exact absurd h (List.not_lt_nil _)
      | cons d text =>
          rw [List.flatMap_cons, List.flatMap_cons]
          rcases List.cons_lt_cons_iff.mp h with hless | ⟨rfl, hless⟩
          · exact utf8EncodeChar_append_lt hless _ _
          · exact List.append_left_lt (ih hless)

/-- A text that comes before another one by its characters does so by its bytes. -/
theorem utf8Bytes_lt {a b : String} (h : a < b) : utf8Bytes a < utf8Bytes b := by
  rw [utf8Bytes_eq, utf8Bytes_eq]
  exact flatMap_utf8EncodeChar_lt h

end Text
end ScriptHints
