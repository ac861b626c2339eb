import ScriptHints.Proofs.Syntax.OperatorTree
import ScriptHints.Proofs.Token.Passage

/-!
# Tokens of a chain

A chain of names and binary operators has a token for each of them. A slash divides in it,
because a name stands before it.
-/

namespace ScriptHints
namespace Token

open Syntax

def IsName (name : String) : Prop :=
  startsWord name.toList = true ∧ name.toList.all isWordPart = true ∧ kindOfWord name = .identifier

instance (name : String) : Decidable (IsName name) :=
  inferInstanceAs (Decidable (_ ∧ _ ∧ _))

theorem begins_blank (text : List Char) : Begins isApart [] (' ' :: text) :=
  begins_of_apart (by decide) [] text

/-- A name is a token of its own, with a blank or nothing behind it. -/
theorem item_of_name {name : String} (h : IsName name) (afterOperand : Bool) {rest : List Char}
    (hrest : Begins isApart [] rest) :
    exists c cs, name.toList = c :: cs ∧
      item afterOperand c (cs ++ rest) = ⟨.token .identifier, c :: cs, rest⟩ := by
  rcases h with ⟨hstart, hparts, hkind⟩
  cases hname : name.toList with
  | nil =>
      rw [hname] at hstart
      cases hstart
  | cons c cs =>
      rw [hname] at hstart hparts
      refine ⟨c, cs, rfl, item_token_before ?_ hrest⟩
      rw [List.append_nil, item_of_wordStart hstart]
      have htail : wordTail cs = ⟨(), cs, []⟩ := by
        rw [List.all_cons, Bool.and_eq_true] at hparts
        have hall := List.all_eq_true.mp hparts.2
        unfold wordTail Reading.run
        rw [List.takeWhile_eq_self_iff.mpr hall, List.dropWhile_eq_nil_iff.mpr hall]
      have htext : String.ofList (c :: cs) = name := by
        rw [← hname, String.ofList_toList]
      simp only [wordItem, htail, Reading.extend, Reading.map, List.cons_append, List.nil_append,
        htext, hkind]

theorem item_of_operator (operator : BinaryOperator) {rest : List Char}
    (hrest : Begins isApart [] rest) :
    exists c cs, operator.symbol.toList = c :: cs ∧
      item true c (cs ++ rest) = ⟨.token operator.kind, c :: cs, rest⟩ := by
  have hat : exists c cs, operator.symbol.toList = c :: cs ∧
      item true c (cs ++ []) = ⟨.token operator.kind, c :: cs, []⟩ := by
    cases operator <;> exact ⟨_, _, rfl, by rfl⟩
  rcases hat with ⟨c, cs, hsymbol, hitem⟩
  exact ⟨c, cs, hsymbol, item_token_before hitem hrest⟩

inductive ChainTokens : List (BinaryOperator × String) → List Token → Prop where
  | nil : ChainTokens [] []
  | cons {operator : BinaryOperator} {name : String} {links : List (BinaryOperator × String)}
      {t u : Token} {ts : List Token} :
      t.kind = operator.kind -> u.kind = .identifier -> u.lexeme = name -> ChainTokens links ts ->
      ChainTokens ((operator, name) :: links) (t :: u :: ts)

theorem ChainTokens.length_eq {links : List (BinaryOperator × String)} {ts : List Token}
    (h : ChainTokens links ts) : ts.length = 2 * links.length := by
  induction h with
  | nil => rfl
  | cons _ _ _ _ ih =>
      rw [List.length_cons, List.length_cons, List.length_cons, ih]
      rfl

def linkChars : List (BinaryOperator × String) → List Char
  | [] => []
  | (operator, name) :: links =>
      ' ' :: (operator.symbol.toList ++ (' ' :: (name.toList ++ linkChars links)))

theorem chainText_toList (first : String) (links : List (BinaryOperator × String)) :
    (chainText first links).toList = first.toList ++ linkChars links := by
  induction links generalizing first with
  | nil => exact (List.append_nil _).symm
  | cons link links ih =>
      rw [chainText, linkChars]
      simp [ih, String.toList_append]

theorem begins_linkChars (links : List (BinaryOperator × String)) :
    Begins isApart [] (linkChars links) := by
  cases links with
  | nil => exact begins_nil _ _
  | cons link links => exact begins_blank _

namespace Lexer

variable {l : Lexer}

theorem passes_blank {rest : List Char} (hrest : l.rest = ' ' :: rest) :
    l.Passes [] (l.after ⟨.trivia, [' '], rest⟩) :=
  .trivia (show l.rest = ' ' :: ([] ++ rest) from hrest) (item_of_blank (by decide) rest) (.refl _)

theorem passes_name {name : String} (h : IsName name) {rest : List Char}
    (hrest : l.rest = name.toList ++ rest) (hbegins : Begins isApart [] rest) :
    exists t m, l.Passes [t] m ∧ t.kind = .identifier ∧ t.lexeme = name ∧ m.rest = rest ∧
      m.afterOperand = true := by
  rcases item_of_name h l.afterOperand hbegins with ⟨c, cs, hname, hitem⟩
  rw [hname] at hrest
  refine ⟨_, _, .token .identifier hrest hitem (.refl _), rfl, ?_, rfl, rfl⟩
  show String.ofList (c :: cs) = name
  rw [← hname, String.ofList_toList]

theorem passes_operator (operator : BinaryOperator) {rest : List Char}
    (hafter : l.afterOperand = true) (hrest : l.rest = operator.symbol.toList ++ rest)
    (hbegins : Begins isApart [] rest) :
    exists t m, l.Passes [t] m ∧ t.kind = operator.kind ∧ m.rest = rest := by
  rcases item_of_operator operator hbegins with ⟨c, cs, hsymbol, hitem⟩
  rw [hsymbol] at hrest
  rw [← hafter] at hitem
  exact ⟨_, _, .token operator.kind hrest hitem (.refl _), rfl, rfl⟩

theorem passes_links {links : List (BinaryOperator × String)}
    (h : forall link, link ∈ links -> IsName link.2) (hrest : l.rest = linkChars links)
    (hafter : l.afterOperand = true) :
    exists ts m, l.Passes ts m ∧ m.rest = [] ∧ ChainTokens links ts := by
  induction links generalizing l with
  | nil => exact ⟨[], l, .refl l, hrest, .nil⟩
  | cons link links ih =>
      rcases link with ⟨operator, name⟩
      have hblank := passes_blank hrest
      rcases passes_operator operator (l := l.after ⟨.trivia, [' '], _⟩) hafter rfl
        (begins_blank (name.toList ++ linkChars links)) with ⟨t, m, hoperator, htkind, hm⟩
      have hblank' := passes_blank hm
      rcases passes_name (l := m.after ⟨.trivia, [' '], _⟩) (h _ List.mem_cons_self) rfl
        (begins_linkChars links) with ⟨u, m', hname, hukind, hlexeme, hm', hafter'⟩
      rcases ih (fun link hlink => h link (List.mem_cons_of_mem _ hlink)) hm' hafter' with
        ⟨ts, n, hlinks, hn, hts⟩
      refine ⟨t :: u :: ts, n, ?_, hn, .cons htkind hukind hlexeme hts⟩
      exact hblank.trans (hoperator.trans (hblank'.trans (hname.trans hlinks)))

end Lexer

theorem tokensOf_chain {first : String} {links : List (BinaryOperator × String)}
    (hfirst : IsName first) (hlinks : forall link, link ∈ links -> IsName link.2) :
    exists stream t ts, tokensOf (chainText first links) = .ok stream ∧
      stream.body.toList = t :: ts ∧ t.kind = .identifier ∧ t.lexeme = first ∧
      ChainTokens links ts := by
  have hrest : (Lexer.ofText (chainText first links)).rest = first.toList ++ linkChars links :=
    chainText_toList first links
  rcases Lexer.passes_name hfirst hrest (begins_linkChars links) with
    ⟨t, m, hname, hkind, hlexeme, hm, hafter⟩
  rcases Lexer.passes_links hlinks hm hafter with ⟨ts, n, hpasses, hn, hts⟩
  refine ⟨⟨(t :: ts).toArray, n.tokenHere .endOfText []⟩, t, ts, ?_, ?_, hkind, hlexeme, hts⟩
  · exact tokensOf_ok_iff.mpr ⟨n, hname.trans hpasses, hn, rfl⟩
  · rfl

end Token
end ScriptHints
