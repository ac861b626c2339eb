import ScriptHints.Proofs.Reader.Composition

/-!
# The rules for expressions as compositions

One lemma for each rule. The stage behind a rule tells whether it always reads a token;
the limit in front of it tells which goals it reaches before it has read one.
-/

namespace ScriptHints
namespace Grammar

open Syntax Token

/-!
## Tokens that begin something
-/

theorem operatorAt?_ne_endOfText {c : Context} {kind : TokenKind} {operator : BinaryOperator}
    (h : operatorAt? c kind = some operator) : kind ≠ .endOfText := by
  intro hend
  rw [hend] at h
  exact nomatch h

theorem operatorAt?_under (c : Context) (o : Options) (kind : TokenKind) :
    operatorAt? (c.under o) kind = operatorAt? c kind := rfl

theorem keyLiteral?_ne_endOfText {t : Token} {node : Node} (h : keyLiteral? t = some node) :
    t.kind ≠ .endOfText := by
  intro hend
  simp only [keyLiteral?, hend] at h
  exact nomatch h

theorem operand?_ne_endOfText {t : Token} {node : Node} (h : operand? t = some node) :
    t.kind ≠ .endOfText := by
  intro hend
  simp only [operand?, keyLiteral?, hend] at h
  exact nomatch h

theorem operand?_of_keyLiteral? {t : Token} {node : Node} (h : keyLiteral? t = some node) :
    operand? t = some node := by
  unfold keyLiteral? at h
  unfold operand? keyLiteral?
  split at h
  next hkind => rw [hkind]; exact h
  next hkind => rw [hkind]; exact h
  next => cases h

theorem isSkipped_of_operand? {t : Token} {node : Node} (h : operand? t = some node) :
    node.isSkipped = false := by
  unfold operand? keyLiteral? at h
  repeat' split at h
  all_goals cases h <;> rfl

theorem unaryOperator_ne_endOfText {kind : TokenKind} {operator : UnaryOperator}
    (h : UnaryOperator.ofKind? kind = some operator) : kind ≠ .endOfText := by
  intro hend
  rw [hend] at h
  exact nomatch h

theorem updateOperator_ne_endOfText {kind : TokenKind} {operator : UpdateOperator}
    (h : UpdateOperator.ofKind? kind = some operator) : kind ≠ .endOfText := by
  intro hend
  rw [hend] at h
  exact nomatch h

variable {stream : TokenStream} {limit : Nat} (c : Context) (hc : c.stream = stream)
include hc

/-!
## Sequences, assignments and conditionals
-/

theorem composed_expressionRule :
    Composed stream 6 .anywhere (fun _ o reach => expressionRule reach (c.under o)) .moved := by
  unfold expressionRule
  refine .bind (.position _) fun start => ?_
  refine .bind (.reach .assignment c hc (.inr (by decide))) fun first => ?_
  refine .bind (.reach .sequenceTail c hc (.inl rfl)) fun more => ?_
  cases more with
  | nil => exact .pure .moved first
  | cons next more => exact .add .moved c start _ hc rfl

theorem composed_sequenceTailRule :
    Composed stream 1 .anywhere (fun _ o reach => sequenceTailRule reach (c.under o))
    .anywhere := by
  unfold sequenceTailRule
  refine .accept c hc nofun ?_ fun t => ?_
  · refine .bind (.reach .assignment c hc (.inl rfl)) fun next => ?_
    refine .bind (.reach .sequenceTail c hc (.inl rfl)) fun more => ?_
    exact .loose (.pure .moved _)
  · exact .loose (.pure _ [])

theorem composed_conditionalRule :
    Composed stream 5 .anywhere (fun _ o reach => conditionalRule reach (c.under o)) .moved := by
  unfold conditionalRule
  refine .bind (.position _) fun start => ?_
  refine .bind (.reach (.binary 0) c hc (.inr (by decide))) fun test => ?_
  refine .accept c hc nofun ?_ fun t => ?_
  · refine .bind (.reach .assignment c.allowingIn hc (.inl rfl)) fun consequent => ?_
    refine .bind (composed_expect c hc .colon .conditionalColon _) fun _ => ?_
    refine .bind (.reach .assignment c hc (.inl rfl)) fun alternative => ?_
    exact .add .moved c start _ hc rfl
  · exact .pure .moved test

theorem composed_assignmentRule :
    Composed stream 5 .anywhere (fun _ o reach => assignmentRule reach (c.under o)) .moved := by
  unfold assignmentRule
  refine .bind (.position _) fun start => ?_
  refine .bind (composed_conditionalRule c hc) fun target => .lookKind c hc fun t _ => ?_
  split
  next => exact .pure .moved target
  next =>
    refine .bind (.advance c hc (.inr rfl)) fun _ => ?_
    refine .bind (.reach .assignment c hc (.inl rfl)) fun value => ?_
    exact .add .moved c start _ hc rfl

/-!
## Binary operators
-/

theorem composed_binaryRule (floor : Nat) :
    Composed stream 4 .anywhere (fun _ o reach => binaryRule reach floor (c.under o)) .moved := by
  unfold binaryRule
  refine .bind (.position _) fun start => ?_
  refine .bind (.reach .unary c hc (.inr (by decide))) fun left => ?_
  exact .reach (.binaryTail floor start left) c hc (.inl rfl)

theorem composed_binaryTailRule (floor start : Nat) (left : NodeId) :
    Composed stream 1 .anywhere
      (fun _ o reach => binaryTailRule reach floor start left (c.under o)) .anywhere := by
  unfold binaryTailRule
  refine .lookKind c hc fun t _ => ?_
  simp only [operatorAt?_under]
  cases hoperator : operatorAt? c t.kind with
  | none => exact .loose (.pure _ left)
  | some operator =>
      have hmoves := operatorAt?_ne_endOfText hoperator
      refine .ite (fun _ => .loose (.pure _ left)) fun _ => ?_
      refine .bind (.advance c hc (Stage.seeing_of_ne hmoves _)) fun _ => ?_
      refine .bind (.reach (.binary operator.precedence) c hc (.inl rfl)) fun right => ?_
      refine .bind (.add .moved c start _ hc rfl) fun joined => ?_
      exact .loose (.reach (.binaryTail floor start joined) c hc (.inl rfl))

/-!
## Accesses, calls and constructions
-/

theorem composed_propertyName (k : Stage) :
    Composed stream limit k (fun _ o _ => propertyName (c.under o)) .moved := by
  unfold propertyName
  refine .bind (.position _) fun start => .look c hc fun t _ => ?_
  split
  case h_4 => exact .fail _ .moved c .propertyName hc nofun
  all_goals
    next hkind =>
      have hmoves : t.kind ≠ .endOfText := by
        rw [hkind]
        exact nofun
      refine .bind (.advance c hc (Stage.seeing_of_ne hmoves _)) fun _ => ?_
      exact .add .moved c start _ hc rfl

theorem composed_argumentsRule :
    Composed stream 6 .anywhere (fun _ o reach => argumentsRule reach (c.under o)) .moved := by
  unfold argumentsRule
  refine .bind (.reach .assignment c.allowingIn hc (.inr (by decide))) fun argument => ?_
  refine .accept c hc nofun ?_ fun t => ?_
  · exact .bind (.reach .arguments c hc (.inl rfl)) fun more => .pure .moved _
  · exact .bind (.closing c .closeParen .closeArguments hc) fun _ => .pure .moved _

theorem composed_argumentListRule (k : Stage) :
    Composed stream limit k (fun _ o reach => argumentListRule reach (c.under o)) .moved := by
  unfold argumentListRule
  refine .bind (composed_expect c hc .openParen .openArguments k) fun _ => ?_
  refine .accept c hc nofun ?_ fun t => ?_
  · exact .pure .moved []
  · exact .reach .arguments c hc (.inl rfl)

theorem composed_constructionRule {k : Stage} (hk : k = .atToken ∨ k = .moved) :
    Composed stream limit k (fun _ o reach => constructionRule reach (c.under o)) .moved := by
  unfold constructionRule
  refine .bind (.position _) fun start => .bind (.advance c hc hk) fun _ => ?_
  refine .bind (m := .moved) (composed_nested c hc fun deeper hdeeper => ?_) fun target => ?_
  · exact .reach (.member false) deeper hdeeper (.inl rfl)
  refine .lookKind c hc fun t _ => .ite (fun _ => ?_) fun _ => ?_
  · refine .bind (.map some (composed_argumentListRule c hc .moved)) fun arguments => ?_
    exact .add .moved c start _ hc rfl
  · refine .bind (.pure .moved none) fun arguments => ?_
    exact .add .moved c start _ hc rfl

theorem composed_memberTailRule (calls : Bool) (start : Nat) (front : NodeId) :
    Composed stream 1 .anywhere
      (fun _ o reach => memberTailRule reach calls start front (c.under o)) .anywhere := by
  unfold memberTailRule
  refine .lookKind c hc fun t _ => ?_
  split
  next hdot =>
    have hmoves : t.kind ≠ .endOfText := by
      rw [hdot]
      exact nofun
    refine .bind (.advance c hc (Stage.seeing_of_ne hmoves _)) fun _ => ?_
    refine .bind (composed_propertyName c hc .moved) fun name => ?_
    refine .bind (.add .moved c start _ hc rfl) fun access => ?_
    exact .loose (.reach (.memberTail calls start access) c hc (.inl rfl))
  next hbracket =>
    have hmoves : t.kind ≠ .endOfText := by
      rw [hbracket]
      exact nofun
    refine .bind (.advance c hc (Stage.seeing_of_ne hmoves _)) fun _ => ?_
    refine .bind (.reach .expression c.allowingIn hc (.inl rfl)) fun element => ?_
    refine .bind (.closing c .closeBracket .closeIndex hc) fun _ => ?_
    refine .bind (.add .moved c start _ hc rfl) fun access => ?_
    exact .loose (.reach (.memberTail calls start access) c hc (.inl rfl))
  next =>
    refine .ite (fun _ => ?_) fun _ => .loose (.pure _ front)
    refine .bind (composed_argumentListRule c hc _) fun arguments => ?_
    refine .bind (.add .moved c start _ hc rfl) fun call => ?_
    exact .loose (.reach (.memberTail calls start call) c hc (.inl rfl))
  next => exact .loose (.pure _ front)

/-!
## Operands
-/

theorem composed_blockRule (k : Stage) :
    Composed stream limit k (fun _ o reach => blockRule reach (c.under o)) .moved := by
  unfold blockRule
  refine .bind (.position _) fun start => ?_
  refine .bind (composed_expect c hc .openBrace .openBlock _) fun _ => ?_
  refine .bind (.reach (.statements .closeBrace) c hc (.inl rfl)) fun statements => ?_
  refine .bind (.closing c .closeBrace .closeBlock hc) fun _ => ?_
  exact .add .moved c start _ hc rfl

theorem composed_functionName (declaration : Bool) :
    Composed stream limit .moved (fun _ o _ => functionName (c.under o) declaration) .moved := by
  unfold functionName
  refine .lookKind c hc fun t _ => .ite (fun _ => ?_) fun _ => .ite (fun _ => ?_) fun _ => ?_
  · exact .bind (composed_newName c hc .functionName _) fun name => .pure .moved _
  · exact .fail .moved .moved c .functionName hc nofun
  · exact .pure .moved none

theorem composed_parametersRule :
    Composed stream limit .anywhere (fun _ o reach => parametersRule reach (c.under o)) .moved := by
  unfold parametersRule
  refine .bind (composed_newName c hc .parameterName _) fun parameter => ?_
  refine .accept c hc nofun ?_ fun t => ?_
  · exact .bind (.reach .parameters c hc (.inl rfl)) fun more => .pure .moved _
  · exact .bind (.closing c .closeParen .closeParameters hc) fun _ => .pure .moved _

theorem composed_functionRule (declaration : Bool) {k : Stage} (hk : k = .atToken ∨ k = .moved) :
    Composed stream limit k (fun _ o reach => functionRule reach declaration (c.under o))
    .moved := by
  unfold functionRule
  refine .bind (.position _) fun start => .bind (.advance c hc hk) fun _ => ?_
  refine .bind (composed_functionName c hc declaration) fun name => ?_
  refine .bind (composed_expect c hc .openParen .openParameters _) fun _ => ?_
  refine .accept c hc nofun ?_ fun t => ?_
  · refine .bind (.pure .moved []) fun params => ?_
    refine .bind (composed_blockRule c hc .moved) fun body => ?_
    exact .add .moved c start _ hc rfl
  · refine .bind (.reach .parameters c hc (.inl rfl)) fun params => ?_
    refine .bind (composed_blockRule c hc .moved) fun body => ?_
    exact .add .moved c start _ hc rfl

theorem composed_parenthesizedRule {k : Stage} (hk : k = .atToken ∨ k = .moved) :
    Composed stream limit k (fun _ o reach => parenthesizedRule reach (c.under o)) .moved := by
  unfold parenthesizedRule
  refine .bind (.position _) fun start => .bind (.advance c hc hk) fun _ => ?_
  refine .bind (.reach .expression c.allowingIn hc (.inl rfl)) fun expression => ?_
  refine .bind (.closing c .closeParen .closeParentheses hc) fun _ => ?_
  exact .add .moved c start _ hc rfl

theorem composed_arrayRule {k : Stage} (hk : k = .atToken ∨ k = .moved) :
    Composed stream limit k (fun _ o reach => arrayRule reach (c.under o)) .moved := by
  unfold arrayRule
  refine .bind (.position _) fun start => .bind (.advance c hc hk) fun _ => ?_
  refine .bind (.reach .elements c hc (.inl rfl)) fun elements => ?_
  exact .add .moved c start _ hc rfl

theorem composed_elementsRule :
    Composed stream 6 .anywhere (fun _ o reach => elementsRule reach (c.under o)) .anywhere := by
  unfold elementsRule
  refine .accept c hc nofun (.loose (.pure .moved [])) fun t => ?_
  refine .accept c hc nofun ?_ fun t' => ?_
  · exact .loose (.bind (.reach .elements c hc (.inl rfl)) fun more => .pure .moved _)
  · refine .bind (.reach .assignment c.allowingIn hc (.inr (by decide))) fun element => ?_
    refine .accept c hc nofun ?_ fun t'' => ?_
    · exact .loose (.bind (.reach .elements c hc (.inl rfl)) fun more => .pure .moved _)
    · exact .loose (.bind (.closing c .closeBracket .closeArray hc) fun _ => .pure .moved _)

theorem composed_objectRule {k : Stage} (hk : k = .atToken ∨ k = .moved) :
    Composed stream limit k (fun _ o reach => objectRule reach (c.under o)) .moved := by
  unfold objectRule
  refine .bind (.position _) fun start => .bind (.advance c hc hk) fun _ => ?_
  refine .bind (.reach .properties c hc (.inl rfl)) fun properties => ?_
  exact .add .moved c start _ hc rfl

theorem composed_propertyKey (k : Stage) :
    Composed stream limit k (fun _ o _ => propertyKey (c.under o)) .moved := by
  unfold propertyKey
  refine .bind (.position _) fun start => .look c hc fun t _ => ?_
  cases hliteral : keyLiteral? t with
  | none => exact composed_propertyName c hc _
  | some literal =>
      have hmoves := keyLiteral?_ne_endOfText hliteral
      refine .bind (.advance c hc (Stage.seeing_of_ne hmoves _)) fun _ => ?_
      exact .add .moved c start _ hc (isSkipped_of_operand? (operand?_of_keyLiteral? hliteral))

theorem composed_propertyRule (k : Stage) :
    Composed stream limit k (fun _ o reach => propertyRule reach (c.under o)) .moved := by
  unfold propertyRule
  refine .bind (.position _) fun start => ?_
  refine .bind (composed_propertyKey c hc _) fun key => ?_
  refine .bind (composed_expect c hc .colon .propertyColon _) fun _ => ?_
  refine .bind (.reach .assignment c.allowingIn hc (.inl rfl)) fun value => ?_
  exact .add .moved c start _ hc rfl

theorem composed_propertiesRule :
    Composed stream limit .anywhere (fun _ o reach => propertiesRule reach (c.under o)) .moved := by
  unfold propertiesRule
  refine .accept c hc nofun (.pure .moved []) fun t => ?_
  refine .bind (composed_propertyRule c hc _) fun property => ?_
  refine .accept c hc nofun ?_ fun t' => ?_
  · exact .bind (.reach .properties c hc (.inl rfl)) fun more => .pure .moved _
  · exact .bind (.closing c .closeBrace .closeObject hc) fun _ => .pure .moved _

theorem composed_operandRule (k : Stage) :
    Composed stream limit k (fun _ o reach => operandRule reach (c.under o)) .moved := by
  unfold operandRule
  refine .bind (.position _) fun start => .look c hc fun t _ => ?_
  cases hoperand : operand? t with
  | some node =>
      have hmoves := operand?_ne_endOfText hoperand
      refine .bind (.advance c hc (Stage.seeing_of_ne hmoves _)) fun _ => ?_
      exact .add .moved c start _ hc (isSkipped_of_operand? hoperand)
  | none =>
      have hseeing (h : t.kind ≠ .endOfText) := Stage.seeing_of_ne h k
      dsimp only
      split
      next hkind => exact composed_functionRule c hc false (hseeing (by simp [hkind]))
      next hkind => exact composed_parenthesizedRule c hc (hseeing (by simp [hkind]))
      next hkind => exact composed_arrayRule c hc (hseeing (by simp [hkind]))
      next hkind => exact composed_objectRule c hc (hseeing (by simp [hkind]))
      next => exact .fail _ .moved c .endOfText hc nofun
      next => exact .fail _ .moved c .unexpectedToken hc nofun

theorem composed_memberRule (calls : Bool) :
    Composed stream limit .anywhere (fun _ o reach => memberRule reach calls (c.under o))
    .moved := by
  unfold memberRule
  refine .bind (.position _) fun start => ?_
  refine .lookKind c hc fun t _ => .ite (fun hnew => ?_) fun _ => ?_
  · have hmoves := Stage.seeing_of_ne (t := t) (by simp [hnew]) .anywhere
    refine .bind (composed_constructionRule c hc hmoves) fun front => ?_
    exact .reach (.memberTail calls start front) c hc (.inl rfl)
  · refine .bind (composed_operandRule c hc _) fun front => ?_
    exact .reach (.memberTail calls start front) c hc (.inl rfl)

/-!
## Unary operators and updates
-/

theorem composed_updateRule (k : Stage) (hlimit : 2 < limit) :
    Composed stream limit k (fun _ o reach => updateRule reach (c.under o)) .moved := by
  unfold updateRule
  refine .bind (.position _) fun start => ?_
  refine .bind (m := .moved) (.anyStage (.reach (.member true) c hc (.inr hlimit)) _)
    fun operand => ?_
  refine .look c hc fun t _ => ?_
  split
  next =>
    refine .ite (fun _ => .pure .moved operand) fun _ => ?_
    refine .bind (.advance c hc (.inr rfl)) fun _ => ?_
    exact .add .moved c start _ hc rfl
  next => exact .pure .moved operand

theorem composed_unaryRule :
    Composed stream 3 .anywhere (fun _ o reach => unaryRule reach (c.under o)) .moved := by
  unfold unaryRule
  refine .bind (.position _) fun start => .lookKind c hc fun t _ => ?_
  split
  next hoperator =>
    have hmoves := unaryOperator_ne_endOfText hoperator
    refine .bind (.advance c hc (Stage.seeing_of_ne hmoves _)) fun _ => ?_
    refine .bind (.reach .unary c hc (.inl rfl)) fun operand => ?_
    exact .add .moved c start _ hc rfl
  next =>
    split
    next hoperator =>
      have hmoves := updateOperator_ne_endOfText hoperator
      refine .bind (.advance c hc (Stage.seeing_of_ne hmoves _)) fun _ => ?_
      refine .bind (.reach .unary c hc (.inl rfl)) fun operand => ?_
      exact .add .moved c start _ hc rfl
    next => exact composed_updateRule c hc _ (by decide)

end Grammar
end ScriptHints
