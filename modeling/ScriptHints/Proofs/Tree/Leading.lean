import ScriptHints.Proofs.Token.Words
import ScriptHints.Proofs.Tree.FittedRules
import ScriptHints.Proofs.Tree.Walks

/-!
# Leftmost operands and the text they begin

The text of an expression begins with its leftmost operand: the operand itself tells whether the
text begins with a name, and the node that takes it up tells whether a point stands behind that
name. Points in numbers, strings and regular expressions come too late for that.
-/

namespace ScriptHints

open Token Text

def Leads (word text : List Char) : Prop :=
  exists rest, text = word ++ rest ∧ (rest = [] ∨ rest.head? = some '.')

theorem endsWord_of_point {rest : List Char} (h : rest = [] ∨ rest.head? = some '.') :
    EndsWord rest := by
  rcases h with rfl | hpoint
  · exact endsWord_nil
  · intro c hc
    rw [hpoint] at hc
    cases hc
    decide +kernel

theorem leads_iff_takeWhile {word text : List Char} (hword : IsWord word) :
    Leads word text ↔ text.takeWhile (· ≠ '.') = word := by
  have hplain : forall c, c ∈ word -> decide (c ≠ '.') = true := by
    intro c hmem
    refine decide_eq_true fun hpoint => ?_
    have hpart := List.all_eq_true.mp hword.2 c hmem
    rw [hpoint, show isWordPart '.' = false by decide +kernel] at hpart
    cases hpart
  constructor
  · rintro ⟨rest, rfl, hpoint⟩
    have hrest : forall c, rest.head? = some c -> decide (c ≠ '.') = false := by
      intro c hc
      rcases hpoint with rfl | hpoint
      · cases hc
      · rw [hpoint] at hc
        cases hc
        rfl
    exact congrArg Reading.taken (run_append (fun c => decide (c ≠ '.')) hplain hrest)
  · intro h
    refine ⟨text.dropWhile (· ≠ '.'), ?_, ?_⟩
    · rw [← h, List.takeWhile_append_dropWhile]
    · cases hrest : text.dropWhile (· ≠ '.') with
      | nil => exact .inl rfl
      | cons c rest =>
          have hhead : (Reading.run (· ≠ '.') text).rest.head? = some c := congrArg List.head? hrest
          exact .inr (congrArg some (by simpa using head?_run_rest hhead))

namespace Syntax

/-!
## Operands at the front
-/

namespace SyntaxTree

def HasLeftOperand (t : SyntaxTree) (id left : NodeId) : Prop :=
  exists n, t.node id = .ok n ∧ n.leftOperand? = some left

def BeginsWith (t : SyntaxTree) : NodeId → NodeId → Prop :=
  Relation.ReflTransGen t.HasLeftOperand

/-- The leftmost operand of an expression has no other one at its front. -/
def Leftmost (t : SyntaxTree) (id leaf : NodeId) : Prop :=
  t.BeginsWith id leaf ∧ forall left, ¬ t.HasLeftOperand leaf left

end SyntaxTree

theorem toList_textOf (fragments : List Fragment) :
    (Fragment.textOf fragments).toList = fragments.flatMap fun f => f.text.toList := by
  unfold Fragment.textOf
  induction fragments with
  | nil => rfl
  | cons f fragments ih => simp [String.join_cons, ih]

/-- How the text of an operand begins that has no other operand at its front. -/
inductive Opens : Node → List Char → Prop where
  | name {name : String} :
      IsWord name.toList -> Opens (.identifier name) name.toList
  | reserved {n : Node} {word : String} :
      IsWord word.toList -> kindOfWord word ≠ .identifier -> n.identifierName? = none ->
      Opens n word.toList
  | behindWord {n : Node} {word more : List Char} {c : Char} :
      IsWord word -> isWordPart c = false -> c ≠ '.' -> n.identifierName? = none ->
      Opens n (word ++ c :: more)
  | other {n : Node} {text : List Char} :
      startsWord text = false -> (exists c, c ∈ text ∧ c ≠ '.') -> n.identifierName? = none ->
      Opens n text

namespace Opens

variable {n : Node} {text : List Char}

theorem exists_ne_point (h : Opens n text) : exists c, c ∈ text ∧ c ≠ '.' := by
  have hword {word : List Char} (hword : IsWord word) : exists c, c ∈ word ∧ c ≠ '.' := by
    cases word with
    | nil => cases hword.1
    | cons c cs => exact ⟨c, List.mem_cons_self, (isWordStart_plain hword.1).2.2.2.2.2.2⟩
  cases h with
  | name h => exact hword h
  | reserved h => exact hword h
  | @behindWord _ _ _ c _ _ hc => exact ⟨c, by simp, hc⟩
  | other _ h => exact h

theorem ne_identifier {name : String} (h : n.identifierName? = none) : n ≠ .identifier name := by
  rintro rfl
  cases h

theorem leads_iff (h : Opens n text) {name : String} (hname : IsName name) {back : List Char}
    (hback : EndsWord back) :
    Leads name.toList (text ++ back) ↔
      n = .identifier name ∧ (back = [] ∨ back.head? = some '.') := by
  cases h with
  | @name name' hword =>
      constructor
      · rintro ⟨rest, heq, hpoint⟩
        rcases append_inj_of_isWordPart hword.2 hname.isWord.2 hback
          (endsWord_of_point hpoint) heq with
          ⟨hsame, rfl⟩
        rw [String.toList_inj.mp hsame]
        exact ⟨rfl, hpoint⟩
      · rintro ⟨heq, hpoint⟩
        cases heq
        exact ⟨back, rfl, hpoint⟩
  | @reserved n word hword hkind hnone =>
      refine iff_of_false ?_ fun h => ne_identifier hnone h.1
      rintro ⟨rest, heq, hpoint⟩
      have hsame := (append_inj_of_isWordPart hword.2 hname.isWord.2 hback
        (endsWord_of_point hpoint) heq).1
      rw [String.toList_inj.mp hsame] at hkind
      exact hkind hname.2.2
  | @behindWord n word more c hword hpart hc hnone =>
      refine iff_of_false ?_ fun h => ne_identifier hnone h.1
      rintro ⟨rest, heq, hpoint⟩
      rw [List.append_assoc] at heq
      have hrest := (append_inj_of_isWordPart hword.2 hname.isWord.2 (endsWord_cons hpart _)
        (endsWord_of_point hpoint) heq).2
      rw [← hrest] at hpoint
      rcases hpoint with hnil | hhead
      · cases hnil
      · exact hc (Option.some.inj hhead)
  | other hstart hsome hnone =>
      refine iff_of_false ?_ fun h => ne_identifier hnone h.1
      rintro ⟨rest, heq, _⟩
      have hbegins := hname.isWord.1
      cases text with
      | nil =>
          rcases hsome with ⟨c, hc, _⟩
          cases hc
      | cons c cs =>
          cases hsplit : name.toList with
          | nil =>
              rw [hsplit] at hbegins
              cases hbegins
          | cons c' cs' =>
              rw [hsplit] at hbegins heq
              have hsame : c = c' := (List.cons.inj heq).1
              rw [← hsame] at hbegins
              exact absurd hbegins (Bool.eq_false_iff.mp hstart)

end Opens

section

variable {text : String} {stream : TokenStream} {t : SyntaxTree} {n : Node} {level : Nat}
  {print : Nat → NodeId → Except TreeFault (List Fragment)} {fragments : List Fragment}

theorem Opens.of_holds (h : tokensOf text = .ok stream) {i : Nat} (hholds : n.Holds (stream.get i))
    (hprint : n.fragments print level = .ok fragments) :
    Opens n (Fragment.textOf fragments).toList := by
  have hmem (hkind : (stream.get i).kind ≠ .endOfText) := (ended_tokensOf h).mem_body hkind
  rw [toList_textOf]
  cases n with
  | identifier name =>
      cases hprint
      rw [List.flatMap_singleton]
      exact .name (Grammar.isWord_of_holds h hholds)
  | number value raw =>
      rcases hholds with ⟨hkind, rfl⟩
      cases hprint
      rcases tokensOf_number h (hmem (by rw [hkind]; exact nofun)) hkind with
        ⟨hstart, d, hd, hdigit⟩
      rw [List.flatMap_singleton]
      refine .other hstart ⟨d, hd, ?_⟩ rfl
      rintro rfl
      cases hdigit
  | string value quote =>
      rcases hholds with ⟨hkind, rfl⟩
      cases hprint
      rcases tokensOf_string h (hmem (by rw [hkind]; exact nofun)) hkind with
        ⟨quote, inside, _, hquote, hlexeme, _⟩
      have hquoteOf : Grammar.quoteOf (stream.get i).lexeme = quote := by
        rw [Grammar.quoteOf, hlexeme]
        rfl
      rw [List.flatMap_singleton, hquoteOf]
      have hplain : isWordStart quote = false ∧ quote ≠ '.' := by
        rcases hquote with rfl | rfl <;> decide +kernel
      have htext : (String.singleton quote ++ escapeContents quote value ++
          String.singleton quote).toList =
          quote :: ((escapeContents quote value).toList ++ [quote]) := by simp
      rw [show (Fragment.lexeme _).text.toList = _ from htext]
      exact .other hplain.1 ⟨quote, List.mem_cons_self, hplain.2⟩ rfl
  | boolean value =>
      cases hprint
      rw [List.flatMap_singleton]
      have hwords : IsWord "true".toList ∧ IsWord "false".toList := by decide +kernel
      cases value with
      | true => exact .reserved hwords.1 (by decide) rfl
      | false => exact .reserved hwords.2 (by decide) rfl
  | nullValue =>
      cases hprint
      rw [List.flatMap_singleton]
      exact .reserved (isWord_keyword .nullWord) (by decide) rfl
  | thisValue =>
      cases hprint
      rw [List.flatMap_singleton]
      exact .reserved (isWord_keyword .thisWord) (by decide) rfl
  | regExp pattern flags =>
      cases hprint
      rw [List.flatMap_singleton]
      have hslash : isWordStart '/' = false ∧ '/' ≠ '.' := by decide
      have htext : ("/" ++ pattern ++ "/" ++ flags).toList =
          '/' :: (pattern.toList ++ '/' :: flags.toList) := by simp
      rw [show (Fragment.lexeme _).text.toList = _ from htext]
      exact .other hslash.1 ⟨'/', List.mem_cons_self, hslash.2⟩ rfl
  | _ => exact hholds.elim

theorem Opens.of_mark {mark : Punctuator} (more : List Fragment) (hmark : mark ≠ .dot)
    (hname : n.identifierName? = none) :
    Opens n ((Fragment.mark mark :: more).flatMap fun f => f.text.toList) := by
  have hchars : exists c cs, mark.chars = c :: cs ∧ isWordStart c = false ∧ c ≠ '.' := by
    cases mark <;> first | exact absurd rfl hmark | exact ⟨_, _, rfl, by decide⟩
  rcases hchars with ⟨c, cs, hchars, hstart, hpoint⟩
  have htext : (Fragment.mark mark).text.toList = c :: cs := by
    rw [← hchars]
    exact String.toList_ofList
  rw [List.flatMap_cons, htext]
  exact .other hstart ⟨c, List.mem_cons_self, hpoint⟩ hname

theorem Opens.of_keyword (k : Keyword) {more : List Fragment} {c : Char} {cs : List Char}
    (hmore : more.flatMap (fun f => f.text.toList) = c :: cs) (hc : isWordPart c = false)
    (hpoint : c ≠ '.') (hname : n.identifierName? = none) :
    Opens n ((Fragment.word k :: more).flatMap fun f => f.text.toList) := by
  rw [List.flatMap_cons, hmore]
  exact .behindWord (isWord_keyword k) hc hpoint hname

/-- An operand opens its own text if it has no other one at its front. -/
theorem Opens.of_fits (h : tokensOf text = .ok stream) (hfits : n.Fits stream t)
    (hvalue : n.isValue = true) (hleft : n.leftOperand? = none)
    (hprint : n.fragments print level = .ok fragments) :
    Opens n (Fragment.textOf fragments).toList := by
  have hblank : isWordPart ' ' = false ∧ isWordPart '(' = false := by decide +kernel
  cases n with
  | identifier | number | string | boolean | nullValue | thisValue | regExp =>
      rcases hfits.1 rfl with ⟨i, hholds⟩
      exact .of_holds h hholds hprint
  | object | array | parenthesized =>
      rcases exists_of_bind hprint with ⟨inside, _, hrest⟩
      cases hrest
      rw [toList_textOf]
      exact .of_mark _ nofun rfl
  | construction target arguments =>
      rcases exists_of_bind hprint with ⟨callee, _, hrest⟩
      rcases exists_of_bind hrest with ⟨parts, _, hrest⟩
      cases hrest
      rw [toList_textOf]
      exact .of_keyword .newWord rfl hblank.1 (by decide) rfl
  | unary operator operand =>
      rcases exists_of_bind hprint with ⟨inside, _, hrest⟩
      cases hrest
      rw [toList_textOf]
      cases operator with
      | negative | positive | not | bitNot => exact .of_mark _ nofun rfl
      | typeOf | void | delete => exact .of_keyword _ rfl hblank.1 (by decide) rfl
  | update operator side operand =>
      cases side with
      | behind => cases hleft
      | before =>
          rcases exists_of_bind hprint with ⟨inside, _, hrest⟩
          cases hrest
          rw [toList_textOf]
          cases operator <;> exact .of_mark _ nofun rfl
  | function name params body declaration =>
      rcases exists_of_bind hprint with ⟨called, _, hrest⟩
      rcases exists_of_bind hrest with ⟨list, _, hrest⟩
      rcases exists_of_bind hrest with ⟨inside, _, hrest⟩
      cases hrest
      rw [toList_textOf]
      cases called with
      | none => exact .of_keyword .functionWord rfl hblank.2 (by decide) rfl
      | some called => exact .of_keyword .functionWord rfl hblank.1 (by decide) rfl
  | binary | assignment | propertyAccess | elementAccess | call | conditional => cases hleft
  | _ => cases hvalue

/-- What is printed behind the left operand, as far as its first character. -/
theorem exists_joint_of_front {front more : List Fragment} {f : Fragment} {left : NodeId} {c : Char}
    {cs : List Char} (hfront : print level left = .ok front) (hf : f.text.toList = c :: cs)
    (hends : isWordPart c = false)
    (hpoint : c = '.' ↔ exists name, n = .propertyAccess left name) :
    exists front' joint rest, print level left = .ok front' ∧
      (Fragment.textOf (front ++ f :: more)).toList =
        (Fragment.textOf front').toList ++ joint :: rest ∧
      isWordPart joint = false ∧ (joint = '.' ↔ exists name, n = .propertyAccess left name) := by
  refine ⟨front, c, cs ++ (Fragment.textOf more).toList, hfront, ?_, hends, hpoint⟩
  simp only [toList_textOf, List.flatMap_append, List.flatMap_cons, hf, List.cons_append]

/-- Behind its left operand a node is printed with a character that ends every word. It is a
point just in an access. -/
theorem exists_joint {left : NodeId} (hleft : n.leftOperand? = some left)
    (hprint : n.fragments print level = .ok fragments) :
    exists front joint rest, print level left = .ok front ∧
      (Fragment.textOf fragments).toList = (Fragment.textOf front).toList ++ joint :: rest ∧
      isWordPart joint = false ∧ (joint = '.' ↔ exists name, n = .propertyAccess left name) := by
  cases n with
  | binary _ _ right | assignment _ _ right =>
      cases hleft
      rcases exists_of_bind hprint with ⟨front, hfront, hrest⟩
      rcases exists_of_bind hrest with ⟨behind, _, hrest⟩
      cases hrest
      rw [List.append_assoc]
      exact exists_joint_of_front (f := .blank) hfront rfl (by decide +kernel)
        (iff_of_false (by decide) nofun)
  | conditional _ consequent alternative =>
      cases hleft
      rcases exists_of_bind hprint with ⟨front, hfront, hrest⟩
      rcases exists_of_bind hrest with ⟨first, _, hrest⟩
      rcases exists_of_bind hrest with ⟨second, _, hrest⟩
      cases hrest
      simp only [List.append_assoc]
      exact exists_joint_of_front (f := .blank) hfront rfl (by decide +kernel)
        (iff_of_false (by decide) nofun)
  | propertyAccess _ name =>
      cases hleft
      rcases exists_of_bind hprint with ⟨front, hfront, hrest⟩
      rcases exists_of_bind hrest with ⟨behind, _, hrest⟩
      cases hrest
      rw [List.append_assoc]
      exact exists_joint_of_front (f := .mark .dot) hfront rfl (by decide +kernel)
        (iff_of_true rfl ⟨name, rfl⟩)
  | elementAccess _ element =>
      cases hleft
      rcases exists_of_bind hprint with ⟨front, hfront, hrest⟩
      rcases exists_of_bind hrest with ⟨inside, _, hrest⟩
      cases hrest
      exact exists_joint_of_front (f := .mark .openBracket) hfront rfl (by decide +kernel)
        (iff_of_false (by decide) nofun)
  | call _ arguments =>
      cases hleft
      rcases exists_of_bind hprint with ⟨front, hfront, hrest⟩
      rcases exists_of_bind hrest with ⟨inside, _, hrest⟩
      cases hrest
      exact exists_joint_of_front (f := .mark .openParen) hfront rfl (by decide +kernel)
        (iff_of_false (by decide) nofun)
  | update operator side operand =>
      cases side with
      | before => cases hleft
      | behind =>
          cases hleft
          rcases exists_of_bind hprint with ⟨front, hfront, hrest⟩
          cases hrest
          cases operator with
          | increment =>
              exact exists_joint_of_front (f := .lexeme "++") hfront rfl (by decide +kernel)
                (iff_of_false (by decide) nofun)
          | decrement =>
              exact exists_joint_of_front (f := .lexeme "--") hfront rfl (by decide +kernel)
                (iff_of_false (by decide) nofun)
  | _ => cases hleft

def SyntaxTree.FittedParts (stream : TokenStream) (t : SyntaxTree) : Prop :=
  forall id n, t.node id = .ok n -> n.isValue = true -> n.Fits stream t

theorem Node.Fits.leftOperand (h : n.Fits stream t) {left : NodeId}
    (hleft : n.leftOperand? = some left) : t.HasValue left := by
  cases n with
  | propertyAccess target name =>
      cases hleft
      exact h.1
  | «variable» | script | skipped => cases hleft
  | _ => exact h.2 left hleft

theorem leftmost_of_access {id access leaf member : NodeId} {name : String}
    (hbegins : t.BeginsWith id access) (haccess : t.node access = .ok (.propertyAccess leaf member))
    (hleaf : t.node leaf = .ok (.identifier name)) : t.Leftmost id leaf := by
  refine ⟨hbegins.tail ⟨_, haccess, rfl⟩, ?_⟩
  rintro left ⟨n, hnode, hleft⟩
  rw [hleaf] at hnode
  cases hnode
  cases hleft

/-- What the text of an operand leads with, whatever stands behind it. -/
theorem leads_text_iff (h : tokensOf text = .ok stream) (hfitted : t.FittedParts stream)
    {name : String} (hname : IsName name) {id : NodeId} (hvalue : t.HasValue id) {b : Nat}
    (hprint : t.fragmentsWithin b level id = .ok fragments) {back : List Char}
    (hback : EndsWord back) :
    (exists c, c ∈ (Fragment.textOf fragments).toList ∧ c ≠ '.') ∧
    (Leads name.toList ((Fragment.textOf fragments).toList ++ back) ↔
      (t.node id = .ok (.identifier name) ∧ (back = [] ∨ back.head? = some '.')) ∨
        exists leaf access member, t.BeginsWith id access ∧
          t.node access = .ok (.propertyAccess leaf member) ∧
          t.node leaf = .ok (.identifier name)) := by
  induction b generalizing id fragments back with
  | zero => cases hprint
  | succ b ih =>
      rcases hvalue with ⟨n, hnode, hvalue⟩
      have hfits := hfitted id n hnode hvalue
      have hprint : n.fragments (t.fragmentsWithin b) level = .ok fragments := by
        rw [SyntaxTree.fragmentsWithin, hnode] at hprint
        exact hprint
      have hnodeIff {n' : Node} : t.node id = .ok n' ↔ n = n' := by
        rw [hnode, Except.ok.injEq]
      cases hleft : n.leftOperand? with
      | none =>
          have hopens := Opens.of_fits h hfits hvalue hleft hprint
          refine ⟨hopens.exists_ne_point, (hopens.leads_iff hname hback).trans ?_⟩
          rw [hnodeIff]
          refine (or_iff_left ?_).symm
          rintro ⟨leaf, access, member, hbegins, haccess, _⟩
          rcases hbegins.cases_head with rfl | ⟨next, ⟨n', hnode', hleft'⟩, _⟩
          · cases hnodeIff.mp haccess
            cases hleft
          · cases hnodeIff.mp hnode'
            rw [hleft] at hleft'
            cases hleft'
      | some left =>
          rcases exists_joint hleft hprint with ⟨front, joint, rest, hfront, htext, hends, hpoint⟩
          have hinner := ih (hfits.leftOperand hleft) hfront (endsWord_cons hends (rest ++ back))
          have hhere : t.HasLeftOperand id left := ⟨n, hnode, hleft⟩
          constructor
          · rcases hinner.1 with ⟨c, hmem, hc⟩
            rw [htext]
            exact ⟨c, List.mem_append_left _ hmem, hc⟩
          rw [htext, List.append_assoc, List.cons_append, hinner.2]
          constructor
          · rintro (⟨hname, hnil | hhead⟩ | ⟨leaf, access, member, hbegins, haccess⟩)
            · cases hnil
            · rcases hpoint.mp (Option.some.inj hhead) with ⟨member, rfl⟩
              exact .inr ⟨left, id, member, .refl, hnode, hname⟩
            · exact .inr ⟨leaf, access, member, .head hhere hbegins, haccess⟩
          · rintro (⟨hidentifier, _⟩ | ⟨leaf, access, member, hbegins, haccess, hleaf⟩)
            · cases hnodeIff.mp hidentifier
              cases hleft
            · rcases hbegins.cases_head with rfl | ⟨next, ⟨n', hnode', hleft'⟩, hbegins⟩
              · cases hnodeIff.mp haccess
                cases hleft
                exact .inl ⟨hleaf, .inr (congrArg some (hpoint.mpr ⟨member, rfl⟩))⟩
              · cases hnodeIff.mp hnode'
                rw [hleft] at hleft'
                cases hleft'
                exact .inr ⟨leaf, access, member, hbegins, haccess, hleaf⟩

end

end Syntax

end ScriptHints
