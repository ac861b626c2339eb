import ScriptHints.Proofs.Token.Lossless

/-!
# Slices on character boundaries

A slice of a text lies between two offsets in bytes. There is none if an offset is inside a
character or behind the text, or if the offsets are in the wrong order.
-/

namespace ScriptHints
namespace Text

open Token

def dropBytes? : Nat → List Char → Option (List Char)
  | 0, text => some text
  | _ + 1, [] => none
  | n + 1, c :: text =>
      if c.utf8Size ≤ n + 1 then dropBytes? (n + 1 - c.utf8Size) text else none

def takeBytes? : Nat → List Char → Option (List Char)
  | 0, _ => some []
  | _ + 1, [] => none
  | n + 1, c :: text =>
      if c.utf8Size ≤ n + 1 then (takeBytes? (n + 1 - c.utf8Size) text).map (c :: ·) else none

def slice? (first last : Nat) (text : List Char) : Option (List Char) :=
  if first ≤ last then (dropBytes? first text).bind (takeBytes? (last - first)) else none

theorem exists_utf8Len_cons (c : Char) (text : List Char) :
    exists n, String.utf8Len (c :: text) = n + 1 ∧ c.utf8Size ≤ n + 1 ∧
      n + 1 - c.utf8Size = String.utf8Len text := by
  have hpos := c.utf8Size_pos
  have hlength := String.utf8Len_cons c text
  exact ⟨String.utf8Len (c :: text) - 1, by omega, by omega, by omega⟩

theorem dropBytes?_append (front text : List Char) :
    dropBytes? (String.utf8Len front) (front ++ text) = some text := by
  induction front with
  | nil => simp [dropBytes?]
  | cons c front ih =>
      rcases exists_utf8Len_cons c front with ⟨n, hn, hle, hrest⟩
      rw [hn, List.cons_append, dropBytes?, if_pos hle, hrest]
      exact ih

theorem takeBytes?_append (part text : List Char) :
    takeBytes? (String.utf8Len part) (part ++ text) = some part := by
  induction part with
  | nil => simp [takeBytes?]
  | cons c part ih =>
      rcases exists_utf8Len_cons c part with ⟨n, hn, hle, hrest⟩
      rw [hn, List.cons_append, takeBytes?, if_pos hle, hrest, ih]
      rfl

theorem slice?_append (front part text : List Char) :
    slice? (String.utf8Len front) (String.utf8Len front + String.utf8Len part)
      (front ++ (part ++ text)) = some part := by
  unfold slice?
  rw [if_pos (Nat.le_add_right _ _), dropBytes?_append, Nat.add_sub_cancel_left]
  exact takeBytes?_append part text

theorem of_takeBytes?_eq_some {n : Nat} {text part : List Char}
    (h : takeBytes? n text = some part) : part <+: text ∧ String.utf8Len part = n := by
  fun_induction takeBytes? n text generalizing part with
  | case1 => cases h; exact ⟨List.nil_prefix, rfl⟩
  | case2 => cases h
  | case3 n c text hle ih =>
      rcases Option.map_eq_some_iff.mp h with ⟨more, hmore, rfl⟩
      rcases ih hmore with ⟨hfront, hlength⟩
      refine ⟨List.cons_prefix_cons.mpr ⟨rfl, hfront⟩, ?_⟩
      rw [String.utf8Len_cons, hlength]
      omega
  | case4 => cases h

end Text
end ScriptHints
