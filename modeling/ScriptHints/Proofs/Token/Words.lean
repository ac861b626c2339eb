import ScriptHints.Proofs.Token.Chain
import ScriptHints.Proofs.Token.Literals

/-!
# Words and other tokens

A token that is a word has nothing but word characters, and its text tells its kind, so no name
is read from a reserved word. Numbers and strings begin with other characters, which tells them
from words by their first character.
-/

namespace ScriptHints
namespace Token

open Text

def IsWord (text : List Char) : Prop :=
  startsWord text = true ∧ text.all isWordPart = true

instance (text : List Char) : Decidable (IsWord text) :=
  inferInstanceAs (Decidable (_ ∧ _))

def EndsWord (text : List Char) : Prop :=
  forall c, text.head? = some c -> isWordPart c = false

theorem endsWord_nil : EndsWord [] :=
  nofun

theorem endsWord_cons {c : Char} (hc : isWordPart c = false) (text : List Char) :
    EndsWord (c :: text) := by
  rintro _ ⟨rfl⟩
  exact hc

theorem IsName.isWord {name : String} (h : IsName name) : IsWord name.toList :=
  ⟨h.1, h.2.1⟩

theorem isWord_keyword (k : Keyword) : IsWord k.text.toList := by
  cases k <;> decide +kernel

theorem append_inj_of_isWordPart {word word' rest rest' : List Char}
    (hword : word.all isWordPart = true) (hword' : word'.all isWordPart = true)
    (hrest : EndsWord rest) (hrest' : EndsWord rest') (h : word ++ rest = word' ++ rest') :
    word = word' ∧ rest = rest' := by
  have hrun := run_append isWordPart (List.all_eq_true.mp hword) hrest
  have hrun' := run_append isWordPart (List.all_eq_true.mp hword') hrest'
  rw [h, hrun', Reading.mk.injEq] at hrun
  exact ⟨hrun.2.1.symm, hrun.2.2.symm⟩

/-!
## Tokens of a stream
-/

theorem TokenStream.Ended.mem_body {stream : TokenStream} (h : stream.Ended) {i : Nat}
    (hkind : (stream.get i).kind ≠ .endOfText) : stream.get i ∈ stream.body.toList := by
  have hi : i < stream.body.toList.length :=
    Nat.lt_of_not_le fun hle => hkind ((h.kind_get_eq_iff i).mpr hle)
  rw [← stream.getElem_body hi]
  exact List.getElem_mem hi

variable {text : String} {stream : TokenStream}

theorem tokensOf_word (h : tokensOf text = .ok stream) {t : Token}
    (ht : t ∈ stream.body.toList) (hkind : t.kind.isWord = true) :
    IsWord t.lexeme.toList ∧ kindOfWord t.lexeme = t.kind := by
  rcases tokensOf_ok_iff.mp h with ⟨m, hpasses, _, _⟩
  rcases hpasses.exists_item ht with ⟨afterOperand, c, cs, rest, heq, hlexeme⟩
  have hscanned := item_scanned (show (item afterOperand c (cs ++ rest)).value = .token t.kind by
    rw [heq])
  rw [heq] at hscanned
  generalize hkind' : t.kind = kind at heq hkind hscanned ⊢
  generalize hread : (⟨.token kind, c :: cs, rest⟩ : Reading Item) = read at hscanned
  cases hscanned with
  | regExp | string | number | punctuator => cases hkind
  | word _ _ hstart =>
      have hvalue := congrArg Reading.value hread
      have htaken : c :: cs = c :: (wordTail (cs ++ rest)).taken := congrArg Reading.taken hread
      have htail : cs = (Reading.run isWordPart (cs ++ rest)).taken := (List.cons.inj htaken).2
      rw [hlexeme]
      refine ⟨⟨hstart, ?_⟩, ?_⟩
      · rw [List.all_cons, Bool.and_eq_true]
        refine ⟨by rw [isWordPart, hstart]; rfl, List.all_eq_true.mpr ?_⟩
        rw [htail]
        exact fun _ => mem_run_taken
      · have hvalue : kind = kindOfWord (String.ofList (c :: (wordTail (cs ++ rest)).taken)) := by
          injection hvalue
        rw [hvalue, ← htaken, ← hlexeme, String.ofList_toList]

theorem tokensOf_identifier (h : tokensOf text = .ok stream) {i : Nat}
    (hkind : (stream.get i).kind = .identifier) : IsName (stream.get i).lexeme := by
  have hmem := (ended_tokensOf h).mem_body (by rw [hkind]; exact nofun)
  rcases tokensOf_word h hmem (by rw [hkind]; rfl) with ⟨hword, hname⟩
  exact ⟨hword.1, hword.2, hname.trans hkind⟩

theorem tokensOf_number (h : tokensOf text = .ok stream) {t : Token}
    (ht : t ∈ stream.body.toList) {value : Number.Binary64} (hkind : t.kind = .number value) :
    startsWord t.lexeme.toList = false ∧ exists d, d ∈ t.lexeme.toList ∧ d.isDigit = true := by
  rcases tokensOf_ok_iff.mp h with ⟨m, hpasses, _, _⟩
  rcases hpasses.exists_item ht with ⟨afterOperand, c, cs, rest, heq, hlexeme⟩
  rw [hkind] at heq
  have hscanned := item_scanned
    (show (item afterOperand c (cs ++ rest)).value = .token (.number value) by rw [heq])
  rw [heq] at hscanned
  generalize hread : (⟨.token (.number value), c :: cs, rest⟩ : Reading Item) = read at hscanned
  cases hscanned with
  | word _ hword => cases hword
  | number _ hstart =>
      rw [hlexeme]
      have htaken : c :: cs = (numericLiteral (c :: (cs ++ rest))).taken :=
        congrArg Reading.taken hread
      simp only [startsNumber, Bool.or_eq_true, Bool.and_eq_true, decide_eq_true_eq] at hstart
      constructor
      · cases hword : isWordStart c with
        | false => exact hword
        | true =>
            rcases isWordStart_plain hword with ⟨_, _, _, _, _, hdigit, hpoint⟩
            rcases hstart with hstart | ⟨hstart, _⟩
            · rw [hdigit] at hstart
              cases hstart
            · exact absurd hstart hpoint
      · rcases hstart with hdigit | ⟨hpoint, hdigit⟩
        · exact ⟨c, List.mem_cons_self, hdigit⟩
        · subst hpoint
          have hstart : startsNumber '.' (cs ++ rest) = true := by
            rw [startsNumber, hdigit]
            rfl
          rcases numericLiteral_point hstart with ⟨d, more, hpoint⟩
          rw [hpoint] at htaken
          rw [(List.cons.inj htaken).2] at hdigit ⊢
          exact ⟨d, List.mem_cons_of_mem _ List.mem_cons_self, hdigit⟩

end Token
end ScriptHints
