import ScriptHints.Json.Strings
import ScriptHints.Proofs.TypeInfo.ByteOrder

/-!
# Readers of JSON and the characters that they read

A reader of JSON goes over bytes, but the grammar of JSON is about characters. The marks of the
grammar are characters of one byte, and every byte of another character is larger than these.
-/

namespace ScriptHints
namespace Json

open Text

def encode (text : List Char) : List UInt8 :=
  text.flatMap String.utf8EncodeChar

theorem encode_append (front rest : List Char) :
    encode (front ++ rest) = encode front ++ encode rest :=
  List.flatMap_append

theorem encode_cons (c : Char) (text : List Char) :
    encode (c :: text) = String.utf8EncodeChar c ++ encode text :=
  List.flatMap_cons

def IsSingle (c : Char) : Prop :=
  c.toNat < 128

instance (c : Char) : Decidable (IsSingle c) :=
  inferInstanceAs (Decidable (_ < _))

theorem IsSingle.utf8EncodeChar {c : Char} (h : IsSingle c) :
    String.utf8EncodeChar c = [UInt8.ofNat c.toNat] := by
  have hle : c.val.toNat ≤ 127 := Nat.le_of_lt_succ h
  unfold String.utf8EncodeChar
  dsimp only
  rw [if_pos hle]
  rfl

theorem IsSingle.ofUInt8 {c : Char} (h : IsSingle c) : Char.ofUInt8 (UInt8.ofNat c.toNat) = c := by
  have hlt : c.toNat < 128 := h
  apply Char.toNat_inj.mp
  show (UInt8.ofNat c.toNat).toUInt32.toNat = c.toNat
  rw [UInt8.toNat_toUInt32, UInt8.toNat_ofNat']
  omega

theorem le_of_mem_utf8EncodeChar {c : Char} (h : ¬ IsSingle c) {b : UInt8}
    (hb : b ∈ String.utf8EncodeChar c) : 128 ≤ b.toNat := by
  have hlt : ¬ c.val.toNat ≤ 127 := fun hle => h (Nat.lt_succ_of_le hle)
  unfold String.utf8EncodeChar at hb
  dsimp only at hb
  rw [if_neg hlt] at hb
  have hbytes {n : Nat} (hn : 128 ≤ n % 256) : 128 ≤ (UInt8.ofNat n).toNat := by
    rw [UInt8.toNat_ofNat']
    exact hn
  split at hb
  · simp only [List.mem_cons, List.not_mem_nil, or_false] at hb
    rcases hb with rfl | rfl <;> exact hbytes (by omega)
  split at hb
  · simp only [List.mem_cons, List.not_mem_nil, or_false] at hb
    rcases hb with rfl | rfl | rfl <;> exact hbytes (by omega)
  · simp only [List.mem_cons, List.not_mem_nil, or_false] at hb
    rcases hb with rfl | rfl | rfl | rfl <;> exact hbytes (by omega)

theorem length_le_length_encode (text : List Char) : text.length ≤ (encode text).length := by
  induction text with
  | nil => exact Nat.le_refl _
  | cons c text ih =>
      have hpos := List.length_pos_iff.mpr (utf8EncodeChar_ne_nil c)
      rw [encode_cons, List.length_append, List.length_cons]
      omega

theorem fromUTF8?_encode (text : String) :
    String.fromUTF8? ⟨(encode text.toList).toArray⟩ = some text := by
  have hbytes : (⟨(encode text.toList).toArray⟩ : ByteArray) = text.toByteArray := by
    unfold encode
    rw [← utf8Bytes_eq]
    rfl
  rw [hbytes, String.fromUTF8?, dif_pos text.isValidUTF8]
  rfl

/-!
## Readings
-/

/-- The reader takes the characters in front of the rest and gives this result. -/
def Reads (x : JsonReader α) (text rest : List Char) (a : α) : Prop :=
  x.run (encode text) = .ok (a, encode rest)

namespace Reads

variable {text middle rest : List Char} {a : α}

theorem pure : Reads (pure a) text text a :=
  rfl

theorem bind {x : JsonReader α} {f : α → JsonReader β} {b : β} (hx : Reads x text middle a)
    (hf : Reads (f a) middle rest b) : Reads (x >>= f) text rest b := by
  unfold Reads at hx hf ⊢
  rw [StateT.run_bind, hx]
  exact hf

theorem map {x : JsonReader α} {f : α → β} (hx : Reads x text rest a) :
    Reads (f <$> x) text rest (f a) := by
  rw [map_eq_pure_bind]
  exact hx.bind pure

theorem bind_get {f : List UInt8 → JsonReader β} {b : β}
    (hf : Reads (f (encode text)) text rest b) :
    Reads (get >>= f) text rest b :=
  bind rfl hf

end Reads

def Blanks (text : List Char) : Prop :=
  forall c, c ∈ text -> c = ' ' ∨ c = '\t' ∨ c = '\n' ∨ c = '\r'

theorem blanks_nil : Blanks [] :=
  nofun

def IsMark (c : Char) : Prop :=
  IsSingle c ∧ c ≠ ' ' ∧ c ≠ '\t' ∧ c ≠ '\n' ∧ c ≠ '\r'

instance (c : Char) : Decidable (IsMark c) :=
  inferInstanceAs (Decidable (_ ∧ _))

theorem isBlank_eq {c : Char} (h : IsSingle c) :
    isBlank (UInt8.ofNat c.toNat) = (c = ' ' || c = '\t' || c = '\n' || c = '\r' : Bool) := by
  unfold isBlank
  rw [h.ofUInt8]

theorem encode_blanks {before : List Char} (h : Blanks before) :
    (encode before).all isBlank = true := by
  induction before with
  | nil => rfl
  | cons c before ih =>
      have hc := h c List.mem_cons_self
      have hsingle : IsSingle c := by
        rcases hc with rfl | rfl | rfl | rfl <;> decide
      have hblank : isBlank (UInt8.ofNat c.toNat) = true := by
        rw [isBlank_eq hsingle]
        rcases hc with rfl | rfl | rfl | rfl <;> rfl
      rw [encode_cons, hsingle.utf8EncodeChar, List.all_append, List.all_cons, List.all_nil, hblank,
        ih fun c' hc' => h c' (List.mem_cons_of_mem _ hc')]
      rfl

theorem run_peek {bytes rest : List UInt8} {b : UInt8} (h : bytes.dropWhile isBlank = b :: rest) :
    peek.run bytes = .ok (Char.ofUInt8 b, b :: rest) := by
  unfold peek
  rw [StateT.run_bind, StateT.run_modify, h]
  rfl

theorem reads_peek {before : List Char} (hbefore : Blanks before) {c : Char} (hc : IsMark c)
    (rest : List Char) : Reads peek (before ++ c :: rest) (c :: rest) c := by
  have hhead : encode (c :: rest) = UInt8.ofNat c.toNat :: encode rest := by
    rw [encode_cons, hc.1.utf8EncodeChar]
    rfl
  have hstop : isBlank (UInt8.ofNat c.toNat) = false := by
    rw [isBlank_eq hc.1]
    simp [hc.2.1, hc.2.2.1, hc.2.2.2.1, hc.2.2.2.2]
  have hskip : (encode (before ++ c :: rest)).dropWhile isBlank = encode (c :: rest) := by
    rw [encode_append, List.dropWhile_append_of_pos (List.all_eq_true.mp (encode_blanks hbefore)),
      hhead, List.dropWhile_cons_of_neg (Bool.not_eq_true _ ▸ hstop)]
  unfold Reads
  rw [run_peek (hskip.trans hhead), hc.1.ofUInt8, hhead]

theorem reads_drop {c : Char} (hc : IsSingle c) (rest : List Char) :
    Reads drop (c :: rest) rest () := by
  unfold Reads
  rw [encode_cons, hc.utf8EncodeChar]
  rfl

def Marked (c : Char) (text : List Char) : Prop :=
  exists before, Blanks before ∧ text = before ++ [c]

theorem reads_require {c : Char} (hc : IsMark c) {text : List Char} (h : Marked c text)
    (rest : List Char) : Reads (require c) (text ++ rest) rest () := by
  rcases h with ⟨before, hbefore, rfl⟩
  rw [List.append_assoc]
  refine (reads_peek hbefore hc rest).bind ?_
  rw [if_pos rfl]
  exact reads_drop hc.1 rest

theorem reads_peek_bind {c : Char} (hc : IsMark c) {text : List Char} (h : Marked c text)
    (rest : List Char) {f : Char → JsonReader α} {behind : List Char} {a : α}
    (hf : Reads (f c) (c :: rest) behind a) : Reads (peek >>= f) (text ++ rest) behind a := by
  rcases h with ⟨before, hbefore, rfl⟩
  rw [List.append_assoc]
  exact (reads_peek hbefore hc rest).bind hf

theorem reads_atEnd {behind : List Char} (h : Blanks behind) : Reads atEnd behind behind () := by
  unfold atEnd
  refine .bind_get ?_
  rw [if_pos (encode_blanks h)]
  exact .pure

end Json
end ScriptHints
