import ScriptHints.Proofs.Token.Words
import ScriptHints.Proofs.Tree.Fitted
import ScriptHints.Proofs.Tree.Shape

/-!
# Rules and the parts of the nodes that they add

One lemma for each rule of the grammar: what it adds has the parts that it wants. The rules for
expressions tell as well that their result is a value, because the rules around them rely on it.
With them all nodes of a parsed tree fit, up to the script at its root.
-/

namespace ScriptHints
namespace Grammar

open Syntax Token

variable {stream : TokenStream} {reach : Strategy} (hreach : reach.Builds stream) (c : Context)
  (hc : c.stream = stream) (t : SyntaxTree)

/-!
## Names and literals
-/

section

include hc

theorem builds_newName (what : Expectation) :
    Builds stream t (newName c what) fun id t' => t'.HasNewName stream id := by
  unfold newName
  refine .still still_position fun start => .look hc fun i => ?_
  split
  next hkind =>
    have hholds : (Node.identifier (stream.get i).lexeme).Holds (stream.get i) :=
      ⟨by rw [hkind]; rfl, rfl⟩
    refine .still (still_advance c) fun _ => .add hholds.fits fun id t' hadded => ?_
    exact ⟨i, hkind, hadded⟩
  next => exact .fail c _

theorem builds_propertyName : Builds stream t (propertyName c) fun id t' => t'.HasName id := by
  unfold propertyName
  refine .still still_position fun start => .look hc fun i => ?_
  have hname (hword : (stream.get i).kind.isName = true) :
      Builds stream t (advance c >>= fun _ => addSince c start (.identifier (stream.get i).lexeme))
        fun id t' => t'.HasName id := by
    have hholds : (Node.identifier (stream.get i).lexeme).Holds (stream.get i) := ⟨hword, rfl⟩
    refine .still (still_advance c) fun _ => .add hholds.fits fun id t' hadded => ?_
    exact ⟨_, hadded⟩
  split
  next hkind => exact hname (by rw [hkind]; rfl)
  next hkind => exact hname (by rw [hkind]; rfl)
  next hkind => exact hname (by rw [hkind]; rfl)
  next => exact .fail c _

theorem builds_propertyKey : Builds stream t (propertyKey c) Anything := by
  unfold propertyKey
  refine .still still_position fun start => .look hc fun i => ?_
  cases hliteral : keyLiteral? (stream.get i) with
  | none => exact (builds_propertyName c hc t).any
  | some literal =>
      have hholds := holds_of_operand? (operand?_of_keyLiteral? hliteral)
      exact .still (still_advance c) fun _ => .addAny hholds.fits

end

theorem isValue_of_holds {n : Node} {token : Token} (h : n.Holds token) : n.isValue = true := by
  cases n <;> first | rfl | exact h.elim

/-!
## Sequences, assignments and conditionals
-/

include hreach hc

theorem builds_expressionRule : Builds stream t (expressionRule reach c) Anything := by
  unfold expressionRule
  refine .still still_position fun start => ?_
  refine (hreach .assignment c t hc trivial).bind fun first t₁ _ _ => ?_
  refine (hreach .sequenceTail c t₁ hc trivial).bind fun more t₂ _ _ => ?_
  cases more with
  | nil => exact .pure trivial
  | cons next more => exact .addAny ⟨nofun, nofun⟩

theorem builds_sequenceTailRule : Builds stream t (sequenceTailRule reach c) Anything := by
  unfold sequenceTailRule
  refine .still (still_accept c _) fun _ => .ite ?_ (.pure trivial)
  refine (hreach .assignment c t hc trivial).bind fun next t₁ _ _ => ?_
  exact (hreach .sequenceTail c t₁ hc trivial).bind fun more t₂ _ _ => .pure trivial

theorem builds_conditionalRule :
    Builds stream t (conditionalRule reach c) fun id t' => t'.HasValue id := by
  unfold conditionalRule
  refine .still still_position fun start => ?_
  refine (hreach (.binary 0) c t hc trivial).bind fun test t₁ _ htest => ?_
  refine .still (still_accept c _) fun _ => .ite ?_ (.pure htest)
  refine (hreach .assignment c.allowingIn t₁ hc trivial).bind fun consequent t₂ hext₂ _ => ?_
  refine .still (still_expect c _ _) fun _ => ?_
  refine (hreach .assignment c t₂ hc trivial).bind fun alternative t₃ hext₃ _ => ?_
  refine .addValue ⟨nofun, ?_⟩ rfl
  rintro _ ⟨rfl⟩
  exact htest.mono (hext₂.trans hext₃)

theorem builds_assignmentRule :
    Builds stream t (assignmentRule reach c) fun id t' => t'.HasValue id := by
  unfold assignmentRule
  refine .still still_position fun start => ?_
  refine (builds_conditionalRule hreach c hc t).bind fun target t₁ _ htarget => ?_
  refine .still (still_peekKind c) fun kind => ?_
  split
  next => exact .pure htarget
  next operator _ =>
    refine .still (still_advance c) fun _ => ?_
    refine (hreach .assignment c t₁ hc trivial).bind fun value t₂ hext₂ _ => ?_
    refine .addValue ⟨nofun, ?_⟩ rfl
    rintro _ ⟨rfl⟩
    exact htarget.mono hext₂

/-!
## Binary operators
-/

theorem builds_binaryRule (floor : Nat) :
    Builds stream t (binaryRule reach floor c) fun id t' => t'.HasValue id := by
  unfold binaryRule
  refine .still still_position fun start => ?_
  refine (hreach .unary c t hc trivial).bind fun left t₁ _ hleft => ?_
  exact hreach (.binaryTail floor start left) c t₁ hc hleft

theorem builds_binaryTailRule (floor start : Nat) {left : NodeId} (hleft : t.HasValue left) :
    Builds stream t (binaryTailRule reach floor start left c) fun id t' => t'.HasValue id := by
  unfold binaryTailRule
  refine .still (still_peekKind c) fun kind => ?_
  split
  next => exact .pure hleft
  next operator _ =>
    refine .ite (.pure hleft) ?_
    refine .still (still_advance c) fun _ => ?_
    refine (hreach (.binary operator.precedence) c t hc trivial).bind fun right t₁ hext₁ _ => ?_
    have hfits : (Node.binary operator left right).Fits stream t₁ := by
      refine ⟨nofun, ?_⟩
      rintro _ ⟨rfl⟩
      exact hleft.mono hext₁
    refine (Builds.addValue hfits rfl).bind fun joined t₂ _ hjoined => ?_
    exact hreach (.binaryTail floor start joined) c t₂ hc hjoined

/-!
## Accesses, calls and constructions
-/

theorem builds_argumentListRule : Builds stream t (argumentListRule reach c) Anything := by
  unfold argumentListRule
  refine .still (still_expect c _ _) fun _ => .still (still_accept c _) fun _ => ?_
  exact .ite (.pure trivial) (hreach .arguments c t hc trivial)

theorem builds_argumentsRule : Builds stream t (argumentsRule reach c) Anything := by
  unfold argumentsRule
  refine (hreach .assignment c.allowingIn t hc trivial).bind fun argument t₁ _ _ => ?_
  refine .still (still_accept c _) fun _ => .ite ?_ ?_
  · exact (hreach .arguments c t₁ hc trivial).bind fun more t₂ _ _ => .pure trivial
  · exact .still (still_closing c _ _) fun _ => .pure trivial

theorem builds_constructionRule :
    Builds stream t (constructionRule reach c) fun id t' => t'.HasValue id := by
  unfold constructionRule
  refine .still still_position fun start => .still (still_advance c) fun _ => ?_
  refine Builds.bind (.nested (hreach (.member false) c.deeper t hc trivial))
    fun target t₁ _ _ => ?_
  refine .still (still_peekKind c) fun kind => ?_
  refine .branch Anything (.map ?_) (.pure trivial) fun arguments t₂ _ _ => ?_
  · exact (builds_argumentListRule hreach c hc t₁).any
  · exact .addValue ⟨nofun, nofun⟩ rfl

theorem builds_memberTailRule (calls : Bool) (start : Nat) {front : NodeId}
    (hfront : t.HasValue front) :
    Builds stream t (memberTailRule reach calls start front c) fun id t' => t'.HasValue id := by
  -- However the front is taken up by a node, the rest goes on behind that node.
  have hrest (t₁ : SyntaxTree) {node : Node} (hfits : node.Fits stream t₁)
      (hvalue : node.isValue = true) :
      Builds stream t₁ (addSince c start node >>= fun next =>
        reach (.memberTail calls start next) c)
        fun id t' => t'.HasValue id :=
    (Builds.addValue hfits hvalue).bind fun next t₂ _ hnext =>
      hreach (.memberTail calls start next) c t₂ hc hnext
  unfold memberTailRule
  refine .still (still_peekKind c) fun kind => ?_
  split
  next =>
    refine .still (still_advance c) fun _ => ?_
    refine (builds_propertyName c hc t).bind fun name t₁ hext₁ hname => ?_
    exact hrest t₁ ⟨hfront.mono hext₁, hname⟩ rfl
  next =>
    refine .still (still_advance c) fun _ => ?_
    refine (hreach .expression c.allowingIn t hc trivial).bind fun element t₁ hext₁ _ => ?_
    refine .still (still_closing c _ _) fun _ => hrest t₁ ⟨nofun, ?_⟩ rfl
    rintro _ ⟨rfl⟩
    exact hfront.mono hext₁
  next =>
    refine .ite ?_ (.pure hfront)
    refine (builds_argumentListRule hreach c hc t).bind fun arguments t₁ hext₁ _ => ?_
    refine hrest t₁ ⟨nofun, ?_⟩ rfl
    rintro _ ⟨rfl⟩
    exact hfront.mono hext₁
  next => exact .pure hfront

/-!
## Functions
-/

theorem builds_blockRule : Builds stream t (blockRule reach c) Anything := by
  unfold blockRule
  refine .still still_position fun start => .still (still_expect c _ _) fun _ => ?_
  refine (hreach (.statements .closeBrace) c t hc trivial).bind fun statements t₁ _ _ => ?_
  exact .still (still_closing c _ _) fun _ => .addAny ⟨nofun, nofun⟩

omit hreach in
theorem builds_functionName (declaration : Bool) :
    Builds stream t (functionName c declaration) Anything := by
  unfold functionName
  refine .still (still_peekKind c) fun kind => .ite ?_ (.ite (.fail c _) (.pure trivial))
  exact (builds_newName c hc t .functionName).bind fun name t₁ _ _ => .pure trivial

theorem builds_parametersRule : Builds stream t (parametersRule reach c) Anything := by
  unfold parametersRule
  refine (builds_newName c hc t .parameterName).bind fun parameter t₁ _ _ => ?_
  refine .still (still_accept c _) fun _ => .ite ?_ ?_
  · exact (hreach .parameters c t₁ hc trivial).bind fun more t₂ _ _ => .pure trivial
  · exact .still (still_closing c _ _) fun _ => .pure trivial

theorem builds_functionRule (declaration : Bool) {post : NodeId → SyntaxTree → Prop}
    (hpost : forall name params body id t', t'.node id =
      .ok (.function name params body declaration) ->
      post id t') :
    Builds stream t (functionRule reach declaration c) post := by
  unfold functionRule
  refine .still still_position fun start => .still (still_advance c) fun _ => ?_
  refine (builds_functionName c hc t declaration).bind fun name t₁ _ _ => ?_
  refine .still (still_expect c _ _) fun _ => .still (still_accept c _) fun closed => ?_
  refine .branch Anything (.pure trivial) ?_ fun params t₂ _ _ => ?_
  · exact hreach .parameters c t₁ hc trivial
  · refine (builds_blockRule hreach c hc t₂).bind fun body t₃ _ _ => ?_
    exact .add ⟨nofun, nofun⟩ fun id t' hadded => hpost name params body id t' hadded

/-!
## Operands
-/

theorem builds_parenthesizedRule :
    Builds stream t (parenthesizedRule reach c) fun id t' => t'.HasValue id := by
  unfold parenthesizedRule
  refine .still still_position fun start => .still (still_advance c) fun _ => ?_
  refine (hreach .expression c.allowingIn t hc trivial).bind fun expression t₁ _ _ => ?_
  exact .still (still_closing c _ _) fun _ => .addValue ⟨nofun, nofun⟩ rfl

theorem builds_arrayRule : Builds stream t (arrayRule reach c) fun id t' => t'.HasValue id := by
  unfold arrayRule
  refine .still still_position fun start => .still (still_advance c) fun _ => ?_
  refine (hreach .elements c t hc trivial).bind fun elements t₁ _ _ => ?_
  exact .addValue ⟨nofun, nofun⟩ rfl

theorem builds_elementsRule : Builds stream t (elementsRule reach c) Anything := by
  unfold elementsRule
  refine .still (still_accept c _) fun _ => .ite (.pure trivial) ?_
  refine .still (still_accept c _) fun _ => .ite ?_ ?_
  · exact (hreach .elements c t hc trivial).bind fun more t₁ _ _ => .pure trivial
  · refine (hreach .assignment c.allowingIn t hc trivial).bind fun element t₁ _ _ => ?_
    refine .still (still_accept c _) fun _ => .ite ?_ ?_
    · exact (hreach .elements c t₁ hc trivial).bind fun more t₂ _ _ => .pure trivial
    · exact .still (still_closing c _ _) fun _ => .pure trivial

theorem builds_objectRule : Builds stream t (objectRule reach c) fun id t' => t'.HasValue id := by
  unfold objectRule
  refine .still still_position fun start => .still (still_advance c) fun _ => ?_
  refine (hreach .properties c t hc trivial).bind fun properties t₁ _ _ => ?_
  exact .addValue ⟨nofun, nofun⟩ rfl

theorem builds_propertyRule : Builds stream t (propertyRule reach c) Anything := by
  unfold propertyRule
  refine .still still_position fun start => ?_
  refine (builds_propertyKey c hc t).bind fun key t₁ _ _ => ?_
  refine .still (still_expect c _ _) fun _ => ?_
  refine (hreach .assignment c.allowingIn t₁ hc trivial).bind fun value t₂ _ _ => ?_
  exact .addAny ⟨nofun, nofun⟩

theorem builds_propertiesRule : Builds stream t (propertiesRule reach c) Anything := by
  unfold propertiesRule
  refine .still (still_accept c _) fun _ => .ite (.pure trivial) ?_
  refine (builds_propertyRule hreach c hc t).bind fun property t₁ _ _ => ?_
  refine .still (still_accept c _) fun _ => .ite ?_ ?_
  · exact (hreach .properties c t₁ hc trivial).bind fun more t₂ _ _ => .pure trivial
  · exact .still (still_closing c _ _) fun _ => .pure trivial

theorem builds_operandRule : Builds stream t (operandRule reach c) fun id t' => t'.HasValue id := by
  unfold operandRule
  refine .still still_position fun start => .look hc fun i => ?_
  cases hnode : operand? (stream.get i) with
  | some node =>
      have hholds := holds_of_operand? hnode
      exact .still (still_advance c) fun _ => .addValue hholds.fits (isValue_of_holds hholds)
  | none =>
      dsimp only
      split
      next =>
        refine builds_functionRule hreach c hc t false ?_
        intro name params body id t' hadded
        exact ⟨_, hadded, rfl⟩
      next => exact builds_parenthesizedRule hreach c hc t
      next => exact builds_arrayRule hreach c hc t
      next => exact builds_objectRule hreach c hc t
      next => exact .fail c _
      next => exact .fail c _

theorem builds_memberRule (calls : Bool) :
    Builds stream t (memberRule reach calls c) fun id t' => t'.HasValue id := by
  unfold memberRule
  refine .still still_position fun start => .still (still_peekKind c) fun kind => ?_
  refine .branch _ (builds_constructionRule hreach c hc t) (builds_operandRule hreach c hc t)
    fun front t₁ _ hfront => ?_
  exact hreach (.memberTail calls start front) c t₁ hc hfront

/-!
## Unary operators and updates
-/

theorem builds_updateRule : Builds stream t (updateRule reach c) fun id t' => t'.HasValue id := by
  unfold updateRule
  refine .still still_position fun start => ?_
  refine (hreach (.member true) c t hc trivial).bind fun operand t₁ _ hoperand => ?_
  refine .still (still_peek c) fun next => ?_
  split
  next operator _ =>
    refine .ite (.pure hoperand) ?_
    refine .still (still_advance c) fun _ => .addValue ⟨nofun, ?_⟩ rfl
    rintro _ ⟨rfl⟩
    exact hoperand
  next => exact .pure hoperand

theorem builds_unaryRule : Builds stream t (unaryRule reach c) fun id t' => t'.HasValue id := by
  unfold unaryRule
  refine .still still_position fun start => .still (still_peekKind c) fun kind => ?_
  split
  next operator _ =>
    refine .still (still_advance c) fun _ => ?_
    refine (hreach .unary c t hc trivial).bind fun operand t₁ _ _ => ?_
    exact .addValue ⟨nofun, nofun⟩ rfl
  next =>
    split
    next operator _ =>
      refine .still (still_advance c) fun _ => ?_
      refine (hreach .unary c t hc trivial).bind fun operand t₁ _ _ => ?_
      exact .addValue ⟨nofun, nofun⟩ rfl
    next => exact builds_updateRule hreach c hc t

/-!
## Declarations and simple statements
-/

theorem builds_statementsRule (listEnd : ListEnd) :
    Builds stream t (statementsRule reach listEnd c) Anything := by
  unfold statementsRule
  refine .still (still_peekKind c) fun kind => .ite (.pure trivial) ?_
  refine (hreach .branch c t hc trivial).bind fun statement t₁ _ _ => ?_
  exact (hreach (.statements listEnd) c t₁ hc trivial).bind fun more t₂ _ _ => .pure trivial

theorem builds_variableRule : Builds stream t (variableRule reach c) Anything := by
  unfold variableRule
  refine .still still_position fun start => ?_
  refine (builds_newName c hc t .variableName).bind fun target t₁ _ htarget => ?_
  refine .still (still_accept c _) fun initialized => ?_
  refine .branch (fun initializer t' =>
    forall value, initializer = some value -> t'.HasValue value) (.map ?_) (.pure ?_) ?_
  · refine (hreach .assignment c t₁ hc trivial).mono fun value t' hvalue => ?_
    rintro _ ⟨rfl⟩
    exact hvalue
  · intro value h
    cases h
  · intro initializer t₂ hext₂ hinitializer
    exact .addAny ⟨htarget.mono hext₂, hinitializer⟩

theorem builds_variablesRule : Builds stream t (variablesRule reach c) Anything := by
  unfold variablesRule
  refine (builds_variableRule hreach c hc t).bind fun declared t₁ _ _ => ?_
  refine .still (still_accept c _) fun _ => .ite ?_ (.pure trivial)
  exact (hreach .variables c t₁ hc trivial).bind fun more t₂ _ _ => .pure trivial

theorem builds_declarationRule (statement : Bool) :
    Builds stream t (declarationRule reach statement c) Anything := by
  unfold declarationRule
  refine .still still_position fun start => .still (still_advance c) fun _ => ?_
  refine (hreach .variables c t hc trivial).bind fun declared t₁ _ _ => ?_
  cases statement with
  | true => exact .still (still_endStatement c _) fun _ => .addAny ⟨nofun, nofun⟩
  | false => exact .addAny ⟨nofun, nofun⟩

omit hreach hc in
theorem builds_emptyRule : Builds stream t (emptyRule c) Anything := by
  unfold emptyRule
  refine .still still_position fun start => .still (still_advance c) fun _ => ?_
  exact .addAny ⟨nofun, nofun⟩

theorem builds_expressionStatementRule :
    Builds stream t (expressionStatementRule reach c) Anything := by
  unfold expressionStatementRule
  refine .still still_position fun start => ?_
  refine (hreach .expression c t hc trivial).bind fun expression t₁ _ _ => ?_
  exact .still (still_endStatement c _) fun _ => .addAny ⟨nofun, nofun⟩

omit hreach hc in
theorem builds_missingStatementRule : Builds stream t (missingStatementRule c) Anything := by
  unfold missingStatementRule
  refine .still still_position fun start => .still (still_peek c) fun next => ?_
  exact .still (still_report c _ _ _) fun _ => .addAny ⟨nofun, nofun⟩

/-!
## Jumps
-/

omit hreach in
theorem builds_jumpLabel : Builds stream t (jumpLabel c) Anything := by
  unfold jumpLabel
  refine .still (still_peek c) fun next => .ite ?_ (.pure trivial)
  exact (builds_newName c hc t .label).bind fun name t₁ _ _ => .pure trivial

omit hreach in
theorem builds_jumpRule {jump : Option NodeId → Node}
    (hjump : forall label t', (jump label).Fits stream t') :
    Builds stream t (jumpRule jump c) Anything := by
  unfold jumpRule
  refine .still still_position fun start => .still (still_advance c) fun _ => ?_
  refine (builds_jumpLabel c hc t).bind fun label t₁ _ _ => ?_
  exact .still (still_endStatement c _) fun _ => .addAny (hjump label t₁)

theorem builds_returnRule : Builds stream t (returnRule reach c) Anything := by
  unfold returnRule
  refine .still still_position fun start => .still (still_advance c) fun _ => ?_
  refine .still (still_peek c) fun next => ?_
  refine .branch Anything (.pure trivial) (.map ?_) fun value t₁ _ _ => ?_
  · exact (hreach .expression c t hc trivial).any
  · exact .still (still_endStatement c _) fun _ => .addAny ⟨nofun, nofun⟩

theorem builds_throwRule : Builds stream t (throwRule reach c) Anything := by
  unfold throwRule
  refine .still still_position fun start => .still (still_advance c) fun _ => ?_
  refine .still (still_peek c) fun next => .ite (.fail c _) ?_
  refine (hreach .expression c t hc trivial).bind fun value t₁ _ _ => ?_
  exact .still (still_endStatement c _) fun _ => .addAny ⟨nofun, nofun⟩

/-!
## Conditions and loops
-/

theorem builds_conditionRule (header : Header) :
    Builds stream t (conditionRule reach header c) Anything := by
  unfold conditionRule
  refine .still (still_expect c _ _) fun _ => ?_
  refine (hreach .expression c.allowingIn t hc trivial).bind fun condition t₁ _ _ => ?_
  exact .still (still_closing c _ _) fun _ => .pure trivial

theorem builds_ifRule : Builds stream t (ifRule reach c) Anything := by
  unfold ifRule
  refine .still still_position fun start => .still (still_advance c) fun _ => ?_
  refine (builds_conditionRule hreach c hc t .ifElse).bind fun condition t₁ _ _ => ?_
  refine (hreach .branch c t₁ hc trivial).bind fun thenBranch t₂ _ _ => ?_
  refine .still (still_accept c _) fun hasElse => ?_
  refine .branch Anything (.map ?_) (.pure trivial) fun elseBranch t₃ _ _ => ?_
  · exact (hreach .branch c t₂ hc trivial).any
  · exact .addAny ⟨nofun, nofun⟩

theorem builds_whileRule : Builds stream t (whileRule reach c) Anything := by
  unfold whileRule
  refine .still still_position fun start => .still (still_advance c) fun _ => ?_
  refine (builds_conditionRule hreach c hc t .whileLoop).bind fun condition t₁ _ _ => ?_
  refine (hreach .branch c t₁ hc trivial).bind fun body t₂ _ _ => ?_
  exact .addAny ⟨nofun, nofun⟩

theorem builds_doWhileRule : Builds stream t (doWhileRule reach c) Anything := by
  unfold doWhileRule
  refine .still still_position fun start => .still (still_advance c) fun _ => ?_
  refine (hreach .branch c t hc trivial).bind fun body t₁ _ _ => ?_
  refine .still (still_accept c _) fun found => ?_
  have hend : Builds stream t₁ (do
      let condition ← conditionRule reach .doWhileLoop c
      let _ ← accept c (.punctuator .semicolon)
      addSince c start (.doWhileLoop body condition)) Anything := by
    refine (builds_conditionRule hreach c hc t₁ .doWhileLoop).bind fun condition t₂ _ _ => ?_
    exact .still (still_accept c _) fun _ => .addAny ⟨nofun, nofun⟩
  cases found with
  | true => exact hend
  | false =>
      have hfail (fault : SyntaxFault) :
          Builds stream t₁ (fail c fault : Reader Unit) fun _ _ => False := .fail c fault
      exact (hfail _).bind fun _ _ _ h => h.elim

theorem builds_withRule : Builds stream t (withRule reach c) Anything := by
  unfold withRule
  refine .still still_position fun start => .still (still_advance c) fun _ => ?_
  refine (builds_conditionRule hreach c hc t .withObject).bind fun subject t₁ _ _ => ?_
  refine (hreach .branch c t₁ hc trivial).bind fun body t₂ _ _ => ?_
  exact .addAny ⟨nofun, nofun⟩

theorem builds_forInitializerRule : Builds stream t (forInitializerRule reach c) Anything := by
  unfold forInitializerRule
  refine .still (still_peekKind c) fun kind => ?_
  split
  next => exact .pure trivial
  next => exact .map (builds_declarationRule hreach c.forbiddingIn hc t false).any
  next => exact .map (hreach .expression c.forbiddingIn t hc trivial).any

theorem builds_clauseRule (stop : Punctuator) :
    Builds stream t (clauseRule reach stop c) Anything := by
  unfold clauseRule
  refine .still (still_peekKind c) fun kind => .ite (.pure trivial) (.map ?_)
  exact (hreach .expression c.allowingIn t hc trivial).any

theorem builds_forInTailRule (start : Nat) (iterator : NodeId) :
    Builds stream t (forInTailRule reach start iterator c) Anything := by
  unfold forInTailRule
  refine (hreach .expression c.allowingIn t hc trivial).bind fun subject t₁ _ _ => ?_
  refine .still (still_closing c _ _) fun _ => ?_
  refine (hreach .branch c t₁ hc trivial).bind fun body t₂ _ _ => ?_
  exact .addAny ⟨nofun, nofun⟩

theorem builds_forTailRule (start : Nat) (initializer : Option NodeId) :
    Builds stream t (forTailRule reach start initializer c) Anything := by
  unfold forTailRule
  refine .still (still_expect c _ _) fun _ => ?_
  refine (builds_clauseRule hreach c hc t .semicolon).bind fun condition t₁ _ _ => ?_
  refine .still (still_expect c _ _) fun _ => ?_
  refine (builds_clauseRule hreach c hc t₁ .closeParen).bind fun step t₂ _ _ => ?_
  refine .still (still_closing c _ _) fun _ => ?_
  refine (hreach .branch c t₂ hc trivial).bind fun body t₃ _ _ => ?_
  exact .addAny ⟨nofun, nofun⟩

theorem builds_forRule : Builds stream t (forRule reach c) Anything := by
  unfold forRule
  refine .still still_position fun start => .still (still_advance c) fun _ => ?_
  refine .still (still_expect c _ _) fun _ => ?_
  refine (builds_forInitializerRule hreach c hc t).bind fun initializer t₁ _ _ => ?_
  cases initializer with
  | none => exact builds_forTailRule hreach c hc t₁ start none
  | some initializer =>
      refine .still (still_accept c _) fun _ => .ite ?_ ?_
      · exact builds_forInTailRule hreach c hc t₁ start initializer
      · exact builds_forTailRule hreach c hc t₁ start (some initializer)

/-!
## Switches
-/

theorem builds_caseTailRule (start : Nat) (test : Option NodeId) :
    Builds stream t (caseTailRule reach start test c) Anything := by
  unfold caseTailRule
  refine .still (still_expect c _ _) fun _ => ?_
  refine (hreach (.statements .closeBraceOrCase) c t hc trivial).bind fun body t₁ _ _ => ?_
  refine Builds.bind (.addAny ⟨nofun, nofun⟩) fun case t₂ _ _ => ?_
  exact (hreach .cases c t₂ hc trivial).bind fun more t₃ _ _ => .pure trivial

theorem builds_casesRule : Builds stream t (casesRule reach c) Anything := by
  unfold casesRule
  refine .still still_position fun start => .still (still_peekKind c) fun kind => ?_
  split
  next => exact .still (still_advance c) fun _ => .pure trivial
  next =>
    refine .still (still_advance c) fun _ => ?_
    refine (hreach .expression c.allowingIn t hc trivial).bind fun test t₁ _ _ => ?_
    exact builds_caseTailRule hreach c hc t₁ start (some test)
  next => exact .still (still_advance c) fun _ => builds_caseTailRule hreach c hc t start none
  next => exact .ite (.still (still_closedByEnd c _) fun _ => .pure trivial) (.fail c _)

theorem builds_switchRule : Builds stream t (switchRule reach c) Anything := by
  unfold switchRule
  refine .still still_position fun start => .still (still_advance c) fun _ => ?_
  refine (builds_conditionRule hreach c hc t .switchCases).bind fun discriminant t₁ _ _ => ?_
  refine .still (still_expect c _ _) fun _ => ?_
  refine (hreach .cases c t₁ hc trivial).bind fun cases t₂ _ _ => ?_
  exact .addAny ⟨nofun, nofun⟩

/-!
## Exceptions
-/

theorem builds_catchRule : Builds stream t (catchRule reach c) Anything := by
  unfold catchRule
  refine .still still_position fun start => .still (still_advance c) fun _ => ?_
  refine .still (still_expect c _ _) fun _ => ?_
  refine (builds_newName c hc t .catchParameter).bind fun parameter t₁ _ _ => ?_
  refine .still (still_closing c _ _) fun _ => ?_
  refine (builds_blockRule hreach c hc t₁).bind fun body t₂ _ _ => ?_
  exact .addAny ⟨nofun, nofun⟩

theorem builds_handlerRule : Builds stream t (handlerRule reach c) Anything := by
  unfold handlerRule
  refine .still (still_peekKind c) fun kind => .ite (.map ?_) (.pure trivial)
  exact (builds_catchRule hreach c hc t).any

theorem builds_finalizerRule : Builds stream t (finalizerRule reach c) Anything := by
  unfold finalizerRule
  refine .still (still_accept c _) fun _ => .ite (.map ?_) (.pure trivial)
  exact (builds_blockRule hreach c hc t).any

theorem builds_tryRule : Builds stream t (tryRule reach c) Anything := by
  unfold tryRule
  refine .still still_position fun start => .still (still_advance c) fun _ => ?_
  refine (builds_blockRule hreach c hc t).bind fun body t₁ _ _ => ?_
  refine (builds_handlerRule hreach c hc t₁).bind fun handler t₂ _ _ => ?_
  refine (builds_finalizerRule hreach c hc t₂).bind fun finalizer t₃ _ _ => ?_
  exact .ite (.fail c _) (.addAny ⟨nofun, nofun⟩)

/-!
## All forms
-/

theorem builds_labeledRule : Builds stream t (labeledRule reach c) Anything := by
  unfold labeledRule
  refine .still still_position fun start => ?_
  refine (builds_newName c hc t .label).bind fun label t₁ _ _ => ?_
  refine .still (still_advance c) fun _ => ?_
  refine (hreach .branch c t₁ hc trivial).bind fun body t₂ _ _ => ?_
  exact .addAny ⟨nofun, nofun⟩

theorem builds_statementRule : Builds stream t (statementRule reach c) Anything := by
  have hexpression := builds_expressionStatementRule hreach c hc t
  unfold statementRule
  refine .still (still_peekKind c) fun kind => ?_
  split
  next => exact builds_blockRule hreach c hc t
  next => exact builds_emptyRule c t
  next => exact builds_declarationRule hreach c hc t true
  next => exact builds_ifRule hreach c hc t
  next => exact builds_doWhileRule hreach c hc t
  next => exact builds_whileRule hreach c hc t
  next => exact builds_forRule hreach c hc t
  next => exact builds_jumpRule c hc t fun _ _ => ⟨nofun, nofun⟩
  next => exact builds_jumpRule c hc t fun _ _ => ⟨nofun, nofun⟩
  next => exact builds_returnRule hreach c hc t
  next => exact builds_withRule hreach c hc t
  next => exact builds_switchRule hreach c hc t
  next => exact builds_throwRule hreach c hc t
  next => exact builds_tryRule hreach c hc t
  next => exact builds_functionRule hreach c hc t true fun _ _ _ _ _ _ => trivial
  next =>
    have hlabel : Still (isLabel c) := fun _ => rfl
    exact .still hlabel fun _ => .ite (builds_labeledRule hreach c hc t) hexpression
  next => exact .ite (builds_missingStatementRule c t) hexpression
  next => exact hexpression

omit hreach hc t

theorem builds_applyRule {reach : Strategy} (hreach : reach.Builds stream) :
    Strategy.Builds stream (applyRule reach) := by
  intro goal c t hc hcontinues
  cases goal with
  | statements listEnd => exact builds_statementsRule hreach c hc t listEnd
  | statement => exact .nested (builds_statementRule hreach c.deeper hc t)
  | branch => exact .recovering (hreach .statement c t hc trivial)
  | «variables» => exact builds_variablesRule hreach c hc t
  | cases => exact builds_casesRule hreach c hc t
  | parameters => exact builds_parametersRule hreach c hc t
  | expression => exact builds_expressionRule hreach c hc t
  | sequenceTail => exact builds_sequenceTailRule hreach c hc t
  | assignment => exact builds_assignmentRule hreach c hc t
  | binary floor => exact builds_binaryRule hreach c hc t floor
  | binaryTail floor start left => exact builds_binaryTailRule hreach c hc t floor start hcontinues
  | unary => exact .nested (builds_unaryRule hreach c.deeper hc t)
  | member calls => exact builds_memberRule hreach c hc t calls
  | memberTail calls start front => exact builds_memberTailRule hreach c hc t calls start hcontinues
  | arguments => exact builds_argumentsRule hreach c hc t
  | elements => exact builds_elementsRule hreach c hc t
  | properties => exact builds_propertiesRule hreach c hc t

theorem builds_grammar (stream : TokenStream) (budget : Nat) :
    Strategy.Builds stream (grammar budget) := by
  induction budget with
  | zero => exact fun goal c t _ _ => .fail c _
  | succ budget ih => exact builds_applyRule ih

/-!
## Parsed trees
-/

theorem Builds.fitted_of_ok {stream : TokenStream} {x : Reader α} {post : α → SyntaxTree → Prop}
    {a : α} {s : State} (h : Builds stream .empty x post) (hx : x State.start = .ok a s) :
    s.tree.Fitted stream := by
  have hresult := h State.start rfl SyntaxTree.fitted_empty
  rw [hx] at hresult
  exact hresult.2.1

/-- All nodes of a parsed tree have the parts that they want. Only its root may be a script. -/
theorem fits_of_parses {text : String} {stream : TokenStream} {o : Options} {tree : SyntaxTree}
    (h : Parses text o tree) (htokens : tokensOf text = .ok stream) {id : NodeId} {n : Node}
    (hnode : tree.node id = .ok n) :
    n.Fits stream tree ∨ tree.root = some id ∧ exists statements, n = .script statements := by
  have hbuilds (goal : Goal) (hstart : goal.Continues .empty) :=
    builds_grammar stream (scriptContext text stream o).budget goal (scriptContext text stream o)
      .empty rfl hstart
  rcases h with ⟨ds, hparse⟩ | hparse
  · rw [parseScript_of_tokens htokens] at hparse
    cases heq : scriptReading text stream o with
    | error e s =>
        rw [heq] at hparse
        cases hparse
    | ok ids s =>
        rw [heq] at hparse
        cases hparse
        have hfitted := (hbuilds (.statements .none) trivial).fitted_of_ok heq
        have hext : s.tree.Extends (s.added (scriptContext text stream o) 0 (.script ids)).tree :=
          SyntaxTree.extends_add _ _ _
        rcases SyntaxTree.eq_or_node_of_add hnode with ⟨rfl, rfl⟩ | hold
        · exact .inr ⟨rfl, ids, rfl⟩
        · exact .inl (((hfitted id n hold).mono hext).withRoot _)
  · rcases parseExpression_of_tokens htokens o hparse with ⟨root, s, rfl, hread⟩
    have heq := (Parser.readExpression_ok_iff.mp hread).1
    exact .inl ((hbuilds .expression trivial).fitted_of_ok heq id n hnode)

theorem isWord_of_holds {text : String} {stream : TokenStream} (h : tokensOf text = .ok stream)
    {name : String} {i : Nat} (hholds : (Node.identifier name).Holds (stream.get i)) :
    IsWord name.toList := by
  rcases hholds with ⟨hname, rfl⟩
  have hword : (stream.get i).kind.isWord = true := by
    cases hkind : (stream.get i).kind <;> rw [hkind] at hname <;> first | rfl | cases hname
  have hmem : stream.get i ∈ stream.body.toList := by
    refine (ended_tokensOf h).mem_body fun hkind => ?_
    rw [hkind] at hname
    cases hname
  exact (tokensOf_word h hmem hword).1

theorem isWord_of_parses {text : String} {o : Options} {tree : SyntaxTree} (h : Parses text o tree)
    {id : NodeId} {name : String} (hnode : tree.node id = .ok (.identifier name)) :
    IsWord name.toList := by
  rcases whole_of_parses h with ⟨stream, _, _, htokens, _⟩
  rcases fits_of_parses h htokens hnode with hfits | ⟨_, _, hscript⟩
  · rcases hfits.1 rfl with ⟨i, hholds⟩
    exact isWord_of_holds htokens hholds
  · cases hscript

end Grammar
end ScriptHints
