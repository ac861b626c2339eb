import ScriptHints.Proofs.Json.Reads

/-!
# How strings are spelled in JSON

A character of a string stands for itself, unless it is a quote, a backslash or a control
character. Every character has escapes as well: some have letters of their own, and all of them
have hexadecimal numbers, which are those of two surrogates for a character outside of the basic
plane. A reader gives the same text for all spellings of it.
-/

namespace ScriptHints
namespace Json

open Number Text

/-- Behind a backslash, letters and the characters that they stand for. -/
def escapes : List (Char × Char) :=
  [('"', '"'), ('\\', '\\'), ('/', '/'), ('b', '\x08'), ('f', '\x0c'), ('n', '\n'), ('r', '\r'),
    ('t', '\t')]

structure Digits (digits : List Char) (code : Nat) : Prop where
  length : digits.length = 4
  hexadecimal : digits.all isHexDigit = true
  value : ofDigits 16 digits = code

inductive SpellsChar : Char → List Char → Prop where
  | plain {c : Char} :
      ¬ c < ' ' -> c ≠ '"' -> c ≠ '\\' -> SpellsChar c [c]
  | letter {e c : Char} :
      (e, c) ∈ escapes -> SpellsChar c ['\\', e]
  | code {c : Char} {digits : List Char} :
      Digits digits c.toNat -> SpellsChar c ('\\' :: 'u' :: digits)
  | surrogates {c : Char} {lead trail : Nat} {digits digits' : List Char} :
      Digits digits lead -> Digits digits' trail ->
      isLeadSurrogate lead = true -> isTrailSurrogate trail = true ->
      c.toNat = ofSurrogates lead trail ->
      SpellsChar c ('\\' :: 'u' :: digits ++ '\\' :: 'u' :: digits')

inductive SpellsChars : List Char → List Char → Prop where
  | nil : SpellsChars [] []
  | cons {c : Char} {chars piece more : List Char} :
      SpellsChar c piece -> SpellsChars chars more -> SpellsChars (c :: chars) (piece ++ more)

def SpellsText (text : String) (spelled : List Char) : Prop :=
  exists opening inside, Marked '"' opening ∧ SpellsChars text.toList inside ∧
    spelled = opening ++ (inside ++ ['"'])

/-!
## Arrays of objects

All members of these objects are strings.
-/

def Separated (first : Bool) (text : List Char) : Prop :=
  if first then text = [] else Marked ',' text

inductive SpellsMembers : Bool → List (String × String) → List Char → Prop where
  | nil {first : Bool} {closing : List Char} :
      Marked '}' closing -> SpellsMembers first [] closing
  | cons {first : Bool} {key value : String} {comma spelled colon spelled' more : List Char}
      {members : List (String × String)} :
      Separated first comma -> SpellsText key spelled -> Marked ':' colon ->
      SpellsText value spelled' -> SpellsMembers false members more ->
      SpellsMembers first ((key, value) :: members)
        (comma ++ (spelled ++ (colon ++ (spelled' ++ more))))

inductive SpellsObjects : Bool → List (List (String × String)) → List Char → Prop where
  | nil {first : Bool} {closing : List Char} :
      Marked ']' closing -> SpellsObjects first [] closing
  | cons {first : Bool} {members : List (String × String)} {comma opening inside more : List Char}
      {objects : List (List (String × String))} :
      Separated first comma -> Marked '{' opening -> SpellsMembers true members inside ->
      SpellsObjects false objects more ->
      SpellsObjects first (members :: objects) (comma ++ (opening ++ (inside ++ more)))

/-- A text that holds nothing but an array of objects. -/
def SpellsDocument (objects : List (List (String × String))) (text : List Char) : Prop :=
  exists opening inside behind, Marked '[' opening ∧ SpellsObjects true objects inside ∧
    Blanks behind ∧ text = opening ++ (inside ++ behind)

theorem SpellsMembers.length_lt {first : Bool} {members : List (String × String)} {text : List Char}
    (h : SpellsMembers first members text) : members.length < text.length := by
  induction h with
  | nil hclosing =>
      rcases hclosing with ⟨before, _, rfl⟩
      simp
  | cons _ _ hcolon _ _ ih =>
      rcases hcolon with ⟨before, _, rfl⟩
      simp only [List.length_cons, List.length_append]
      omega

theorem SpellsObjects.length_lt {first : Bool} {objects : List (List (String × String))}
    {text : List Char} (h : SpellsObjects first objects text) : objects.length < text.length := by
  induction h with
  | nil hclosing =>
      rcases hclosing with ⟨before, _, rfl⟩
      simp
  | cons _ hopening _ _ ih =>
      rcases hopening with ⟨before, _, rfl⟩
      simp only [List.length_cons, List.length_append]
      omega

/-!
## The automaton
-/

def prepend (front : List UInt8) (r : Except JsonFault (List UInt8 × List UInt8)) :
    Except JsonFault (List UInt8 × List UInt8) :=
  r.map fun (more, rest) => (front ++ more, rest)

theorem prepend_nil (r : Except JsonFault (List UInt8 × List UInt8)) : prepend [] r = r := by
  cases r <;> rfl

theorem prepend_prepend (front more : List UInt8)
    (r : Except JsonFault (List UInt8 × List UInt8)) :
    prepend front (prepend more r) = prepend (front ++ more) r := by
  cases r with
  | error fault => rfl
  | ok pair => simp [prepend, Except.map]

variable {wanted : Bool}

theorem stringBytes_of_step {state state' : StringState} {b : UInt8} {added rest : List UInt8}
    (hquote : state = .plain -> Char.ofUInt8 b ≠ '"')
    (hstep : state.step wanted b = .ok (state', added)) :
    stringBytes wanted state (b :: rest) = prepend added (stringBytes wanted state' rest) := by
  have hinside : ¬ (state = .plain && Char.ofUInt8 b = '"' : Bool) = true := by
    intro hend
    simp only [Bool.and_eq_true, decide_eq_true_eq] at hend
    exact hquote hend.1 hend.2
  rw [stringBytes, if_neg hinside, hstep]
  rfl

theorem stringBytes_plain {bytes rest : List UInt8}
    (h : forall b, b ∈ bytes ->
      Char.ofUInt8 b ≠ '"' ∧ Char.ofUInt8 b ≠ '\\' ∧ ¬ Char.ofUInt8 b < ' ') :
    stringBytes wanted .plain (bytes ++ rest) = prepend bytes (stringBytes wanted .plain rest) := by
  induction bytes with
  | nil => exact (prepend_nil _).symm
  | cons b bytes ih =>
      rcases h b List.mem_cons_self with ⟨hquote, hslash, hcontrol⟩
      have hstep : StringState.plain.step wanted b = .ok (.plain, [b]) := by
        unfold StringState.step
        dsimp only
        rw [if_neg hslash, if_neg hcontrol]
      rw [List.cons_append, stringBytes_of_step (fun _ => hquote) hstep,
        ih fun b' hb' => h b' (List.mem_cons_of_mem _ hb'), prepend_prepend]
      rfl

theorem stringBytes_encode_cons {state state' : StringState} {c : Char} (hc : IsSingle c)
    {added : List UInt8} (hstep : state.step wanted (UInt8.ofNat c.toNat) = .ok (state', added))
    (hquote : state = .plain -> c ≠ '"') (text : List Char) :
    stringBytes wanted state (encode (c :: text)) =
      prepend added (stringBytes wanted state' (encode text)) := by
  rw [encode_cons, hc.utf8EncodeChar]
  refine stringBytes_of_step (fun hplain => ?_) hstep
  rw [hc.ofUInt8]
  exact hquote hplain

theorem stringBytes_code (text : List Char) :
    stringBytes wanted .plain (encode ('\\' :: 'u' :: text)) =
      stringBytes wanted (.digits none []) (encode text) := by
  have hslash : StringState.plain.step wanted (UInt8.ofNat '\\'.toNat) = .ok (.escaped, []) := rfl
  have hmark : StringState.escaped.step wanted (UInt8.ofNat 'u'.toNat) =
    .ok (.digits none [], []) :=
    rfl
  rw [stringBytes_encode_cons (by decide) hslash (fun _ => by decide),
    stringBytes_encode_cons (by decide) hmark nofun, prepend_nil, prepend_nil]

theorem stringBytes_pair (lead : Nat) (text : List Char) :
    stringBytes wanted (.surrogateEscape lead) (encode ('\\' :: 'u' :: text)) =
      stringBytes wanted (.digits (some lead) []) (encode text) := by
  have hslash : (StringState.surrogateEscape lead).step wanted (UInt8.ofNat '\\'.toNat) =
      .ok (.surrogateMark lead, []) := rfl
  have hmark : (StringState.surrogateMark lead).step wanted (UInt8.ofNat 'u'.toNat) =
      .ok (.digits (some lead) [], []) := rfl
  rw [stringBytes_encode_cons (by decide) hslash nofun,
    stringBytes_encode_cons (by decide) hmark nofun, prepend_nil, prepend_nil]

theorem isSingle_of_isHexDigit {c : Char} (h : isHexDigit c = true) : IsSingle c := by
  have hle : c.toNat ≤ 'f'.toNat := by
    simp only [isHexDigit, Bool.or_eq_true, Bool.and_eq_true, decide_eq_true_eq] at h
    rcases h with (hdigit | ⟨_, hletter⟩) | ⟨_, hletter⟩
    · simp only [Char.isDigit, ge_iff_le, Bool.and_eq_true, decide_eq_true_eq] at hdigit
      exact Nat.le_trans (UInt32.le_iff_toNat_le.mp hdigit.2) (by decide)
    · exact UInt32.le_iff_toNat_le.mp hletter
    · exact Nat.le_trans (UInt32.le_iff_toNat_le.mp hletter) (by decide)
  exact Nat.lt_of_le_of_lt hle (by decide)

theorem step_digits {c : Char} (hc : IsSingle c) (lead : Option Nat) (read : List Char) :
    (StringState.digits lead read).step wanted (UInt8.ofNat c.toNat) =
      if (read ++ [c]).length < 4 then .ok (.digits lead (read ++ [c]), [])
      else if (read ++ [c]).all isHexDigit then
        numericEscape wanted lead (ofDigits 16 (read ++ [c]))
      else .error .malformed := by
  unfold StringState.step
  dsimp only
  rw [hc.ofUInt8]

theorem stringBytes_digit {c : Char} (hc : IsSingle c) {lead : Option Nat} {read text : List Char}
    (hshort : read.length < 3) :
    stringBytes wanted (.digits lead read) (encode (c :: text)) =
      stringBytes wanted (.digits lead (read ++ [c])) (encode text) := by
  have hstep : (StringState.digits lead read).step wanted (UInt8.ofNat c.toNat) =
      .ok (.digits lead (read ++ [c]), []) := by
    rw [step_digits hc, List.length_append]
    exact if_pos (Nat.succ_lt_succ hshort)
  rw [stringBytes_encode_cons hc hstep nofun, prepend_nil]

theorem stringBytes_digits {digits : List Char} {code : Nat} (h : Digits digits code)
    {lead : Option Nat} {state : StringState} {added : List UInt8}
    (hcode : numericEscape wanted lead code = .ok (state, added)) (text : List Char) :
    stringBytes wanted (.digits lead []) (encode (digits ++ text)) =
      prepend added (stringBytes wanted state (encode text)) := by
  rcases h with ⟨hlength, hall, rfl⟩
  have hsingle (c : Char) (hc : c ∈ digits) : IsSingle c :=
    isSingle_of_isHexDigit (List.all_eq_true.mp hall c hc)
  match digits, hlength with
  | [c₁, c₂, c₃, c₄], _ =>
      have h₁ := hsingle c₁ (by simp)
      have h₂ := hsingle c₂ (by simp)
      have h₃ := hsingle c₃ (by simp)
      have h₄ := hsingle c₄ (by simp)
      have hlast : (StringState.digits lead [c₁, c₂, c₃]).step wanted (UInt8.ofNat c₄.toNat) =
          .ok (state, added) := by
        rw [step_digits h₄]
        show (if [c₁, c₂, c₃, c₄].all isHexDigit = true then _ else _) = _
        rw [if_pos hall]
        exact hcode
      show stringBytes wanted (.digits lead []) (encode (c₁ :: c₂ :: c₃ :: c₄ :: text)) = _
      rw [stringBytes_digit h₁ (by simp), stringBytes_digit h₂ (by simp),
        stringBytes_digit h₃ (by simp)]
      exact stringBytes_encode_cons h₄ hlast nofun text

theorem not_surrogate (c : Char) : isLeadSurrogate c.toNat = false ∧
    isTrailSurrogate c.toNat = false := by
  have hvalid : c.toNat.isValidChar := c.valid
  unfold Nat.isValidChar at hvalid
  constructor
  · simp only [isLeadSurrogate, Bool.and_eq_false_iff, decide_eq_false_iff_not]
    omega
  · simp only [isTrailSurrogate, Bool.and_eq_false_iff, decide_eq_false_iff_not]
    omega

theorem encoded_toNat (c : Char) : encoded c.toNat = String.utf8EncodeChar c := by
  unfold encoded
  rw [charOfCode?_toNat]
  rfl

theorem not_trail_of_lead {code : Nat} (h : isLeadSurrogate code = true) :
    isTrailSurrogate code = false := by
  simp only [isLeadSurrogate, Bool.and_eq_true, decide_eq_true_eq] at h
  simp only [isTrailSurrogate, Bool.and_eq_false_iff, decide_eq_false_iff_not]
  omega

/-!
## Strings
-/

/-- No byte of a character that stands for itself is a quote, a backslash or a control
character. -/
theorem stringBytes_self {c : Char} (hcontrol : ¬ c < ' ') (hquote : c ≠ '"') (hslash : c ≠ '\\')
    (text : List Char) :
    stringBytes wanted .plain (encode (c :: text)) =
      prepend (String.utf8EncodeChar c) (stringBytes wanted .plain (encode text)) := by
  rw [encode_cons]
  apply stringBytes_plain
  intro b hb
  by_cases hc : IsSingle c
  · rw [hc.utf8EncodeChar] at hb
    rw [List.mem_singleton.mp hb, hc.ofUInt8]
    exact ⟨hquote, hslash, hcontrol⟩
  · have hne (d : Char) (hd : IsSingle d) : Char.ofUInt8 b ≠ d := by
      rintro rfl
      exact absurd (le_of_mem_utf8EncodeChar hc hb) (Nat.not_le_of_lt hd)
    refine ⟨hne '"' (by decide), hne '\\' (by decide), fun hcontrol => ?_⟩
    exact absurd (le_of_mem_utf8EncodeChar hc hb)
      (Nat.not_le_of_lt (Nat.lt_trans hcontrol (by decide)))

theorem simpleEscape?_of_mem {e c : Char} (h : (e, c) ∈ escapes) :
    IsSingle e ∧ simpleEscape? e = some c := by
  have hall : forall pair, pair ∈ escapes -> IsSingle pair.1 ∧
    simpleEscape? pair.1 = some pair.2 := by
    decide
  exact hall (e, c) h

theorem stringBytes_letter {e c : Char} (h : (e, c) ∈ escapes) (text : List Char) :
    stringBytes true .plain (encode ('\\' :: e :: text)) =
      prepend (String.utf8EncodeChar c) (stringBytes true .plain (encode text)) := by
  rcases simpleEscape?_of_mem h with ⟨hsingle, hletter⟩
  have hslash : StringState.plain.step true (UInt8.ofNat '\\'.toNat) = .ok (.escaped, []) := rfl
  have hstep : StringState.escaped.step true (UInt8.ofNat e.toNat) =
      .ok (.plain, String.utf8EncodeChar c) := by
    unfold StringState.step
    dsimp only
    rw [hsingle.ofUInt8, hletter]
  rw [stringBytes_encode_cons (by decide) hslash (fun _ => by decide),
    stringBytes_encode_cons hsingle hstep nofun, prepend_nil]

theorem SpellsChar.stringBytes_eq {c : Char} {piece : List Char} (h : SpellsChar c piece)
    (text : List Char) :
    stringBytes true .plain (encode (piece ++ text)) =
      prepend (String.utf8EncodeChar c) (stringBytes true .plain (encode text)) := by
  cases h with
  | plain hcontrol hquote hslash => exact stringBytes_self hcontrol hquote hslash text
  | letter hmem => exact stringBytes_letter hmem text
  | @code _ digits hdigits =>
      have hcode : numericEscape true none c.toNat = .ok (.plain, String.utf8EncodeChar c) := by
        rcases not_surrogate c with ⟨hlead, htrail⟩
        simp [numericEscape, hlead, htrail, encoded_toNat]
      show stringBytes true .plain (encode ('\\' :: 'u' :: (digits ++ text))) = _
      rw [stringBytes_code, stringBytes_digits hdigits hcode]
  | @surrogates _ lead trail digits digits' hdigits hdigits' hlead htrail hvalue =>
      have hfirst : numericEscape true none lead = .ok (.surrogateEscape lead, []) := by
        simp [numericEscape, hlead, not_trail_of_lead hlead]
      have hsecond : numericEscape true (some lead) trail =
        .ok (.plain, String.utf8EncodeChar c) := by
        simp [numericEscape, htrail, ← hvalue, encoded_toNat]
      have hassoc : '\\' :: 'u' :: digits ++ '\\' :: 'u' :: digits' ++ text =
          '\\' :: 'u' :: (digits ++ '\\' :: 'u' :: (digits' ++ text)) := by simp
      rw [hassoc, stringBytes_code, stringBytes_digits hdigits hfirst, prepend_nil,
        stringBytes_pair,
        stringBytes_digits hdigits' hsecond]

/-- However the characters of a string are spelled, their bytes are read up to the quote. -/
theorem SpellsChars.stringBytes_eq {chars inside : List Char} (h : SpellsChars chars inside)
    (behind : List Char) :
    stringBytes true .plain (encode (inside ++ '"' :: behind)) =
    .ok (encode chars, encode behind) := by
  induction h with
  | nil =>
      have hquote : IsSingle '"' := by decide
      rw [List.nil_append, encode_cons, hquote.utf8EncodeChar]
      rfl
  | @cons c chars piece more hpiece _ ih =>
      rw [List.append_assoc, hpiece.stringBytes_eq, ih, encode_cons]
      rfl

theorem reads_stringTail {text : String} {inside : List Char}
    (h : SpellsChars text.toList inside) (behind : List Char) :
    Reads stringTail (inside ++ '"' :: behind) behind text := by
  have hlift : (liftM (stringBytes true .plain (encode (inside ++ '"' :: behind))) :
      JsonReader (List UInt8 × List UInt8)) =
      Pure.pure (encode text.toList, encode behind) := by
    rw [h.stringBytes_eq]
    rfl
  unfold stringTail
  refine .bind_get ?_
  rw [hlift, pure_bind]
  dsimp only
  rw [fromUTF8?_encode]
  rfl

end Json
end ScriptHints
