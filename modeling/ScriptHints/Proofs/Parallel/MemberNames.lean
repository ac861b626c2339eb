import ScriptHints.Proofs.Parallel.Runs
import ScriptHints.Proofs.Parallel.Substitution
import ScriptHints.Proofs.Reader.Chain

/-!
# Names of members

A word behind a point is taken as it is, whatever it means elsewhere. From the script down to the
operand every rule reaches the next one where it begins itself, and looks at nothing but the name
and the point. So what it does behind the word it does in the same way for any other word.
-/

namespace ScriptHints
namespace Grammar

open Syntax Token

variable {object name other : String} {c c' : Context}

/-!
## Up to the word
-/

def State.accessed (c : Context) (object name : String) : State :=
  let front := (State.start.moved c).added c 0 (.identifier object)
  let behind := ((front.moved c).moved c).added c 2 (.identifier name)
  behind.added c 0 (.propertyAccess ⟨0⟩ ⟨1⟩)

structure Context.Member (object name : String) (c : Context) : Prop where
  size : 2 < c.stream.size
  object : Unplaced.of (c.stream.get 0) = ⟨.identifier, object, false⟩
  point : (c.stream.get 1).kind = .punctuator .dot
  word : (c.stream.get 2).kind.isWord = true
  name : (c.stream.get 2).lexeme = name

theorem nextId_added (s : State) (c : Context) (start : Nat) (node : Node) :
    (s.added c start node).tree.nextId = ⟨s.tree.size + 1⟩ :=
  congrArg NodeId.mk (SyntaxTree.size_add ..)

theorem position_added (s : State) (c : Context) (start : Nat) (node : Node) :
    (s.added c start node).position = s.position := rfl

theorem propertyName_eq {s : State} (hword : (c.next s).kind.isWord = true) :
    propertyName c s =
      .ok s.tree.nextId ((s.moved c).added c s.position (.identifier (c.next s).lexeme)) := by
  have hname : (advance c >>= fun _ =>
        addSince c s.position (.identifier (c.next s).lexeme)) s =
      .ok s.tree.nextId ((s.moved c).added c s.position (.identifier (c.next s).lexeme)) := by
    rw [bind_advance, addSince_eq, State.tree_moved]
  unfold propertyName
  rw [bind_position, bind_peek]
  cases hkind : (c.next s).kind with
  | identifier => exact hname
  | keyword k => exact hname
  | boolean value => exact hname
  | _ =>
      rw [hkind] at hword
      cases hword

namespace Context.Member

variable (h : c.Member object name)
include h

theorem deeper : c.deeper.Member object name :=
  ⟨h.size, h.object, h.point, h.word, h.name⟩

theorem kind : (c.next State.start).kind = .identifier :=
  congrArg Unplaced.kind h.object

theorem named_eq : State.start.named c = (State.start.moved c).added c 0 (.identifier object) := by
  show (State.start.moved c).added c 0 (.identifier (c.stream.get 0).lexeme) = _
  rw [show (c.stream.get 0).lexeme = object from congrArg Unplaced.lexeme h.object]

theorem position_named : (State.start.named c).position = 1 := by
  have hlt : 0 < c.stream.size := Nat.lt_trans Nat.zero_lt_two h.size
  exact position_moved (s := State.start) hlt

theorem position_point : ((State.start.named c).moved c).position = 2 := by
  have hlt : (State.start.named c).position < c.stream.size := by
    rw [h.position_named]
    exact Nat.lt_of_succ_lt h.size
  rw [position_moved hlt, h.position_named]

theorem memberTail (reach : Strategy) :
    memberTailRule reach true 0 ⟨0⟩ c (State.start.named c) =
      reach (.memberTail true 0 ⟨2⟩) c (State.accessed c object name) := by
  have hpoint : (c.next (State.start.named c)).kind = .punctuator .dot := by
    unfold Context.next
    rw [h.position_named]
    exact h.point
  have hnext : c.next ((State.start.named c).moved c) = c.stream.get 2 := by
    unfold Context.next
    rw [h.position_point]
  have hword : (c.next ((State.start.named c).moved c)).kind.isWord = true := by
    rw [hnext]
    exact h.word
  have hname := propertyName_eq hword
  rw [hnext, h.name, h.position_point, State.tree_moved] at hname
  have hfirst : (State.start.named c).tree.nextId = ⟨1⟩ := by
    unfold State.named
    rw [nextId_added, State.tree_moved]
    rfl
  have hsecond (start : Nat) (node : Node) :
      ((((State.start.named c).moved c).moved c).added c start node).tree.nextId = ⟨2⟩ := by
    rw [nextId_added, State.tree_moved, State.tree_moved]
    exact congrArg (fun id : NodeId => (⟨id.index + 1⟩ : NodeId)) hfirst
  unfold memberTailRule
  rw [bind_peekKind, hpoint]
  dsimp only
  rw [bind_advance, bind_of_ok hname, bind_of_ok (addSince_eq ..), hfirst, hsecond, h.named_eq]
  rfl

end Context.Member

def memberTree (object name : String) (a b access : Span) : SyntaxTree :=
  ((SyntaxTree.empty.add (.identifier object) a).add (.identifier name) b).add
    (.propertyAccess ⟨0⟩ ⟨1⟩) access

theorem renamed_memberTree (object name other : String) (a b access a' b' access' : Span) :
    (memberTree object name a b access).Renamed ⟨1⟩ name other
      (memberTree object other a' b' access') := by
  have hfirst (span : Span) : (SyntaxTree.empty.add (.identifier object) span).size = 1 :=
    SyntaxTree.size_add ..
  have hobject : (SyntaxTree.empty.add (.identifier object) a).SameLinks (fun _ => True)
      (SyntaxTree.empty.add (.identifier object) a') :=
    (SyntaxTree.sameLinks_empty _ .empty).add rfl rfl (fun _ => rfl) a a'
  have hroot : (SyntaxTree.empty.add (.identifier object) a').root =
      (SyntaxTree.empty.add (.identifier object) a).root := rfl
  have hid : (SyntaxTree.empty.add (.identifier object) a).nextId = ⟨1⟩ :=
    congrArg NodeId.mk (hfirst a)
  have hname := SyntaxTree.renamed_add hroot ((hfirst a').trans (hfirst a).symm) hobject name other
    b b'
  rw [hid] at hname
  exact hname.add (.propertyAccess ⟨0⟩ ⟨1⟩) access access'

theorem exists_tree_added (s : State) (c : Context) (start : Nat) (node : Node) :
    exists span, (s.added c start node).tree = s.tree.add node span :=
  ⟨_, rfl⟩

theorem exists_memberTree (c : Context) (object name : String) :
    exists a b access, (State.accessed c object name).tree = memberTree object name a b access := by
  unfold State.accessed memberTree
  dsimp only
  generalize hfront : (State.start.moved c).added c 0 (.identifier object) = front
  generalize hbehind : ((front.moved c).moved c).added c 2 (.identifier name) = behind
  rcases exists_tree_added (State.start.moved c) c 0 (.identifier object) with ⟨a, ha⟩
  rcases exists_tree_added ((front.moved c).moved c) c 2 (.identifier name) with ⟨b, hb⟩
  rcases exists_tree_added behind c 0 (.propertyAccess ⟨0⟩ ⟨1⟩) with ⟨access, haccess⟩
  rw [hfront, State.tree_moved] at ha
  rw [hbehind, State.tree_moved, State.tree_moved, ha] at hb
  rw [hb] at haccess
  exact ⟨a, b, access, haccess⟩

theorem Context.Substituted.member (h : c.Substituted object name other c') :
    c.Member object name where
  size := h.lt_size
  object := h.get_front.1
  point := congrArg Unplaced.kind h.get_front.2.1
  word := by
    have hkind : (c.stream.get 2).kind = kindOfWord name :=
      congrArg Unplaced.kind h.get_front.2.2.1
    rw [hkind]
    exact isWord_kindOfWord name
  name := congrArg Unplaced.lexeme h.get_front.2.2.1

theorem Context.Substituted.member' (h : c.Substituted object name other c') :
    c'.Member object other where
  size := by
    rw [h.size]
    exact h.lt_size
  object := (h.get_eq (by decide)).trans h.get_front.1
  point := (congrArg Unplaced.kind (h.get_eq (by decide))).trans h.member.point
  word := by
    have hkind : (c'.stream.get 2).kind = kindOfWord other :=
      congrArg Unplaced.kind h.get_front.2.2.2
    rw [hkind]
    exact isWord_kindOfWord other
  name := congrArg Unplaced.lexeme h.get_front.2.2.2

theorem position_accessed (h : c.Member object name) :
    (State.accessed c object name).position = 3 := by
  have hlt : ((State.start.named c).moved c).position < c.stream.size := by
    rw [h.position_point]
    exact h.size
  have hword : (((State.start.named c).moved c).moved c).position = 3 := by
    rw [position_moved hlt, h.position_point]
  unfold State.accessed
  dsimp only
  rw [position_added, position_added, ← h.named_eq]
  exact hword

theorem Context.Substituted.accessed (h : c.Substituted object name other c') :
    (State.accessed c object name).Substituted object name other
    (State.accessed c' object other) := by
  rcases exists_memberTree c object name with ⟨a, b, access, htree⟩
  rcases exists_memberTree c' object other with ⟨a', b', access', htree'⟩
  constructor
  · rw [position_accessed h.member, position_accessed h.member']
  · rw [position_accessed h.member]
  · rw [htree, htree']
    exact renamed_memberTree ..
  · rw [htree]
    rfl
  · rw [htree]
    rfl

/-!
## Rules around the access
-/

section

variable (h : c.Substituted object name other c') (budget : Nat)
include h

theorem substituted_member :
    SubstitutedResults object name other atFront.id (grammar budget (.member true) c State.start)
      (grammar budget (.member true) c' State.start) := by
  cases budget with
  | zero => exact .error _ _ _ _
  | succ budget =>
      show SubstitutedResults object name other atFront.id
        (memberRule (grammar budget) true c State.start)
        (memberRule (grammar budget) true c' State.start)
      unfold memberRule
      rw [bind_position, bind_position, bind_peekKind, bind_peekKind, h.member.kind, h.member'.kind,
        if_neg nofun, if_neg nofun, bind_of_ok (operand_name _ h.member.kind),
        bind_of_ok (operand_name _ h.member'.kind)]
      show SubstitutedResults object name other atFront.id
        (grammar budget (.memberTail true 0 ⟨0⟩) c (State.start.named c))
        (grammar budget (.memberTail true 0 ⟨0⟩) c' (State.start.named c'))
      cases budget with
      | zero => exact .error _ _ _ _
      | succ budget =>
          show SubstitutedResults object name other atFront.id
            (memberTailRule (grammar budget) true 0 ⟨0⟩ c (State.start.named c))
            (memberTailRule (grammar budget) true 0 ⟨0⟩ c' (State.start.named c'))
          rw [h.member.memberTail, h.member'.memberTail]
          exact substituted_grammar object name other budget (.memberTail true 0 ⟨2⟩) 0 c c' _ _ h
            h.accessed

theorem substituted_update :
    SubstitutedResults object name other atFront.id (updateRule (grammar budget) c State.start)
      (updateRule (grammar budget) c' State.start) := by
  unfold updateRule
  rw [bind_position, bind_position]
  refine (substituted_member h budget).bind fun operand s s' hs => ?_
  have halike := hs.next_eq h
  rw [bind_peek, bind_peek, hs.kind_next h]
  cases UpdateOperator.ofKind? (c.next s).kind with
  | none => exact .ok operand hs
  | some operator =>
      have hline : (c'.next s').newlineBefore = (c.next s).newlineBefore :=
        congrArg Unplaced.newlineBefore halike
      dsimp only
      rw [hline]
      split
      next => exact .ok operand hs
      next =>
        rw [bind_advance, bind_advance]
        exact (hs.moved h).addSince 0 0 (.update operator .behind operand)

end

theorem substituted_unary (h : c.Substituted object name other c') (budget : Nat) :
    SubstitutedResults object name other atFront.id (grammar budget .unary c State.start)
      (grammar budget .unary c' State.start) := by
  cases budget with
  | zero => exact .error _ _ _ _
  | succ budget =>
      have hunary : SubstitutedResults object name other atFront.id
          (unaryRule (grammar budget) c.deeper State.start)
          (unaryRule (grammar budget) c'.deeper State.start) := by
        unfold unaryRule
        rw [bind_position, bind_position, bind_peekKind, bind_peekKind, h.deeper.member.kind,
          h.deeper.member'.kind]
        exact substituted_update h.deeper budget
      exact h.nested hunary

section

variable (h : c.Substituted object name other c') (budget : Nat)
include h

theorem substituted_binary :
    SubstitutedResults object name other atFront.id (grammar budget (.binary 0) c State.start)
      (grammar budget (.binary 0) c' State.start) := by
  cases budget with
  | zero => exact .error _ _ _ _
  | succ budget =>
      show SubstitutedResults object name other atFront.id
        (binaryRule (grammar budget) 0 c State.start)
        (binaryRule (grammar budget) 0 c' State.start)
      unfold binaryRule
      rw [bind_position, bind_position]
      refine (substituted_unary h budget).bind fun left s s' hs => ?_
      exact substituted_grammar object name other budget (.binaryTail 0 0 left) 0 c c' s s' h hs

theorem substituted_conditional :
    SubstitutedResults object name other atFront.id (conditionalRule (grammar budget) c State.start)
      (conditionalRule (grammar budget) c' State.start) := by
  have hreach := substituted_grammar object name other budget
  unfold conditionalRule
  rw [bind_position, bind_position]
  refine (substituted_binary h budget).bind fun test s s' hs => ?_
  rw [bind_accept, bind_accept, hs.kind_next h]
  split
  next =>
    refine (hreach .assignment 0 c.allowingIn c'.allowingIn _ _ h.allowingIn (hs.moved h)).bind
      fun consequent s₁ s₁' h₁ => ?_
    refine (h₁.expect h .colon .conditionalColon).bind fun _ s₂ s₂' h₂ => ?_
    refine (hreach .assignment 0 c c' s₂ s₂' h h₂).bind fun alternative s₃ s₃' h₃ => ?_
    exact h₃.addSince 0 0 (.conditional test consequent alternative)
  next => exact .ok test hs

theorem substituted_assignment :
    SubstitutedResults object name other atFront.id (grammar budget .assignment c State.start)
      (grammar budget .assignment c' State.start) := by
  cases budget with
  | zero => exact .error _ _ _ _
  | succ budget =>
      show SubstitutedResults object name other atFront.id
        (assignmentRule (grammar budget) c State.start)
        (assignmentRule (grammar budget) c' State.start)
      unfold assignmentRule
      rw [bind_position, bind_position]
      refine (substituted_conditional h budget).bind fun target s s' hs => ?_
      rw [bind_peekKind, bind_peekKind, hs.kind_next h]
      cases AssignmentOperator.ofKind? (c.next s).kind with
      | none => exact .ok target hs
      | some operator =>
          dsimp only
          rw [bind_advance, bind_advance]
          refine (substituted_grammar object name other budget .assignment 0 c c' _ _ h
            (hs.moved h)).bind fun value s₁ s₁' h₁ => ?_
          exact h₁.addSince 0 0 (.assignment operator target value)

theorem substituted_expression :
    SubstitutedResults object name other atFront.id (grammar budget .expression c State.start)
      (grammar budget .expression c' State.start) := by
  cases budget with
  | zero => exact .error _ _ _ _
  | succ budget =>
      show SubstitutedResults object name other atFront.id
        (expressionRule (grammar budget) c State.start)
        (expressionRule (grammar budget) c' State.start)
      unfold expressionRule
      rw [bind_position, bind_position]
      refine (substituted_assignment h budget).bind fun first s s' hs => ?_
      refine (substituted_grammar object name other budget .sequenceTail 0 c c' s s' h hs).bind
        fun more s₁ s₁' h₁ => ?_
      cases more with
      | nil => exact .ok first h₁
      | cons next more => exact h₁.addSince 0 0 (.sequence (first :: next :: more))

theorem substituted_expressionStatement :
    SubstitutedResults object name other atFront.id
    (expressionStatementRule (grammar budget) c State.start)
      (expressionStatementRule (grammar budget) c' State.start) := by
  unfold expressionStatementRule
  rw [bind_position, bind_position]
  refine (substituted_expression h budget).bind fun expression s s' hs => ?_
  refine (hs.ending h (.required .endOfExpression)).bind fun _ s₁ s₁' h₁ => ?_
  exact h₁.addSince 0 0 (.expressionStatement expression)

end

/-- The point behind the object is no colon, so that no label stands there. -/
theorem Context.Member.statementRule_eq (h : c.Member object name) (reach : Strategy) :
    statementRule reach c State.start = expressionStatementRule reach c State.start := by
  have hlabel : isLabel c State.start = .ok false State.start := by
    have hpoint : decide ((c.stream.get 1).kind = .punctuator .colon) = false := by
      rw [h.point]
      rfl
    exact congrArg (fun label => EStateM.Result.ok label State.start) hpoint
  unfold statementRule
  rw [bind_peekKind, h.kind]
  dsimp only
  rw [bind_of_ok hlabel]
  rfl

theorem substituted_branch (h : c.Substituted object name other c') (budget : Nat) :
    SubstitutedResults object name other atFront.id (grammar budget .branch c State.start)
      (grammar budget .branch c' State.start) := by
  cases budget with
  | zero => exact .error _ _ _ _
  | succ budget =>
      show SubstitutedResults object name other atFront.id
        (branchRule (grammar budget) c State.start)
        (branchRule (grammar budget) c' State.start)
      rw [branchRule_eq_statement h.strict, branchRule_eq_statement h.strict']
      cases budget with
      | zero => exact .error _ _ _ _
      | succ budget =>
          have hstatement : SubstitutedResults object name other atFront.id
              (statementRule (grammar budget) c.deeper State.start)
              (statementRule (grammar budget) c'.deeper State.start) := by
            rw [h.deeper.member.statementRule_eq, h.deeper.member'.statementRule_eq]
            exact substituted_expressionStatement h.deeper budget
          exact h.nested hstatement

theorem substituted_statements (h : c.Substituted object name other c') (budget : Nat) :
    SubstitutedResults object name other (List.map atFront.id)
      (grammar budget (.statements .none) c State.start)
      (grammar budget (.statements .none) c' State.start) := by
  cases budget with
  | zero => exact .error _ _ _ _
  | succ budget =>
      show SubstitutedResults object name other (List.map atFront.id)
        (statementsRule (grammar budget) .none c State.start)
        (statementsRule (grammar budget) .none c' State.start)
      unfold statementsRule
      rw [bind_peekKind, bind_peekKind, h.member.kind, h.member'.kind, if_neg nofun, if_neg nofun]
      refine (substituted_branch h budget).bind fun statement s s' hs => ?_
      refine (substituted_grammar object name other budget (.statements .none) 0 c c' s
        s' h hs).bind
        fun more s₁ s₁' h₁ => ?_
      exact .ok (statement :: more) h₁

/-!
## Scripts
-/

variable {rest : String}

theorem substitution_of_tokens {stream stream' : TokenStream} (text text' : String)
    {more : List Unplaced}
    (hended : stream.Ended) (htokens : stream.unplaced = memberTokens object name ++ more)
    (htokens' : stream'.unplaced = memberTokens object other ++ more) :
    (scriptContext text stream .strict).Substituted object name other
      (scriptContext text' stream' .strict) where
  strict := rfl
  options := rfl
  allowIn := rfl
  depth := rfl
  tokens := by
    refine ⟨more, htokens, htokens', ?_⟩
    -- The last token is the end of the text, and no word.
    rintro rfl
    have hlast := TokenStream.getLast?_unplaced stream
    rw [htokens] at hlast
    have hkind : kindOfWord name = stream.stop.kind :=
      congrArg Unplaced.kind (Option.some.inj hlast)
    exact kindOfWord_ne_endOfText name (hkind.trans hended.stop)

theorem scriptReading_substituted {stream stream' : TokenStream} {text text' : String}
    (h : (scriptContext text stream .strict).Substituted object name other
      (scriptContext text' stream' .strict)) :
    SubstitutedResults object name other (List.map atFront.id) (scriptReading text stream .strict)
      (scriptReading text' stream' .strict) := by
  have hbudget : (scriptContext text' stream' .strict).budget =
      (scriptContext text stream .strict).budget := by
    unfold Context.budget
    rw [h.size]
  unfold scriptReading
  rw [hbudget]
  exact substituted_statements h _

/--
A word behind a point is taken as it is. With another word in its place a script is rejected as
well, or its tree is the same but for that name, unless just one of the two words ends an operand
where it is no name, and a slash comes next behind it.
-/
theorem parseScript_memberText (hobject : IsName object) (hname : IsWord name.toList)
    (hother : IsWord other.toList) (hrest : EndsWord rest.toList)
    (hslash : (kindOfWord other).endsOperand = (kindOfWord name).endsOperand ∨
      ¬ SlashAhead rest.toList) :
    (exists e e', parseScript (memberText object name rest) .strict = .error e ∧
      parseScript (memberText object other rest) .strict = .error e') ∨
    exists tree tree' ds ds', parseScript (memberText object name rest) .strict = .ok (tree, ds) ∧
      parseScript (memberText object other rest) .strict = .ok (tree', ds') ∧
      exists target property access, tree.Renamed property name other tree' ∧
        tree.node target = .ok (.identifier object) ∧
        tree.node access = .ok (.propertyAccess target property) := by
  rcases tokensOf_memberText hobject hname hother hrest hslash with
    ⟨e, e', hfails, hfails'⟩ | ⟨stream, stream', more, hstream, hstream', htokens, htokens'⟩
  · exact .inl ⟨_, _, parseScript_of_lexical hfails _, parseScript_of_lexical hfails' _⟩
  · have hsubstituted := substitution_of_tokens (memberText object name rest)
      (memberText object other rest)
      (ended_tokensOf hstream) htokens htokens'
    have hreading := scriptReading_substituted hsubstituted
    rw [parseScript_of_tokens hstream, parseScript_of_tokens hstream']
    generalize scriptReading (memberText object name rest) stream .strict = r at hreading ⊢
    generalize scriptReading (memberText object other rest) stream' .strict = r' at hreading ⊢
    cases hreading with
    | error e e' s s' => exact .inl ⟨_, _, rfl, rfl⟩
    | @ok s s' ids hs =>
        have hadded : (s.added (scriptContext (memberText object name rest) stream .strict) 0
            (.script ids)).Substituted object name other
              (s'.added (scriptContext (memberText object other rest) stream' .strict) 0
                ((Node.script ids).map atFront.id)) := by
          rw [atFront_id, Node.map_id]
          exact hs.added 0 0 (.script ids)
        refine .inr ⟨_, _, _, _, rfl, rfl, ⟨0⟩, ⟨1⟩, ⟨2⟩, ?_, hadded.object, hadded.access⟩
        rw [hs.tree.nextId]
        exact hadded.tree.withRoot _

theorem parseScript_memberText_call :
    exists tree tree' ds ds', parseScript (memberText "a" "in" "(b)") .strict = .ok (tree, ds) ∧
      parseScript (memberText "a" "new" "(b)") .strict = .ok (tree', ds') ∧
      exists target property access, tree.Renamed property "in" "new" tree' ∧
        tree.node target = .ok (.identifier "a") ∧
        tree.node access = .ok (.propertyAccess target property) := by
  have haccepted : (parseScript (memberText "a" "in" "(b)") .strict).toOption.isSome = true := by
    cbv
  have hobject : IsName "a" := by decide
  have hname : IsWord "in".toList := by decide
  have hother : IsWord "new".toList := by decide
  have hrest : EndsWord "(b)".toList := endsWord_cons (by decide) "b)".toList
  have hends : (kindOfWord "new").endsOperand = (kindOfWord "in").endsOperand := by decide
  rcases parseScript_memberText hobject hname hother hrest (.inl hends) with
    ⟨e, _, hfails, _⟩ | hrenamed
  · rw [hfails] at haccepted
    cases haccepted
  · exact hrenamed

/-- Behind a reserved word a slash opens a pattern, also where the word is a name. -/
example : (parseScript (memberText "a" "in" " /b/c") .strict).toOption.isSome = false ∧
    (parseScript (memberText "a" "b" " /b/c") .strict).toOption.isSome = true := by
  cbv

end Grammar
end ScriptHints
