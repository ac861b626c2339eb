import ScriptHints.Proofs.Parallel.Steps

/-!
# The rules for expressions as parallel readings

One lemma for each rule. An expression does not end with a semicolon, and all rules but
those for the rest of a list read a token.
-/

namespace ScriptHints
namespace Grammar

open Syntax Token

/-!
## Tokens
-/

theorem Facts.Alike.keyLiteral?_eq {k : Facts} {t t' : Token} (halike : k.Alike t t') :
    keyLiteral? t' = keyLiteral? t := by
  unfold keyLiteral?
  rw [halike.kind, halike.lexeme]

theorem Facts.Alike.operand?_eq {k : Facts} {t t' : Token} (halike : k.Alike t t') :
    operand? t' = operand? t := by
  unfold operand?
  rw [halike.keyLiteral?_eq, halike.kind, halike.lexeme]

theorem unaryOperator_isSlash {kind : TokenKind} {operator : UnaryOperator}
    (h : UnaryOperator.ofKind? kind = some operator) : kind.isSlash = false := by
  rw [UnaryOperator.ofKind?_eq_some_iff] at h
  rw [← h]
  cases operator <;> rfl

theorem updateOperator_isSlash {kind : TokenKind} {operator : UpdateOperator}
    (h : UpdateOperator.ofKind? kind = some operator) : kind.isSlash = false := by
  rw [UpdateOperator.ofKind?_eq_some_iff] at h
  rw [← h]
  cases operator <;> rfl

theorem operand?_map {t : Token} {node : Node} (hnode : operand? t = some node) (d : Offset) :
    node.map d.id = node := by
  unfold operand? keyLiteral? at hnode
  repeat' split at hnode
  all_goals cases hnode
  all_goals rfl

theorem operand?_takesSemicolon {t : Token} {node : Node} (hnode : operand? t = some node) :
    node.takesSemicolon = false := by
  unfold operand? keyLiteral? at hnode
  repeat' split at hnode
  all_goals cases hnode
  all_goals rfl

theorem operand?_kind_ne {t : Token} {node : Node} (hnode : operand? t = some node)
    (mark : Punctuator) : t.kind ≠ .punctuator mark ∧ t.kind ≠ .keyword .inWord := by
  constructor
  all_goals
    intro hkind
    unfold operand? keyLiteral? at hnode
    rw [hkind] at hnode
    cases hnode

variable {d : Offset} {σ : Scope} {c c' : Context} (h : σ.link c c')

section

include h

theorem parallel_leaf {k : Facts} {start start' : Nat} (hstart : σ.starts start start')
    (t : Token) (node : Node) (hadds : σ.adds node) (hplain : node.takesSemicolon = false)
    (hnode : node.map d.id = node) (hend : t.kind ≠ .endOfText)
    (hin : t.kind = .keyword .inWord -> k.agreed = true)
    (hmark : forall mark, t.kind ≠ .punctuator mark) :
    Parallel d σ d.id (k.seeing t.kind)
      (fun _ => advance c >>= fun _ => addSince c start node)
      (fun _ => advance c' >>= fun _ => addSince c' start' node) .read := by
  refine .bind (.advance c c' t.kind h rfl hend hin ?_) fun _ => ?_
  · intro hslash
    simp [TokenKind.isSlash, hmark] at hslash
  · have hadd := Parallel.add (d := d) (σ := σ) .read c c' start start' node h hstart hadds hplain
    rw [hnode] at hadd
    exact .anyFacts hadd (Facts.behind_covers_read (hmark _))

theorem parallel_functionName (declaration : Bool) :
    Parallel d σ (Option.map d.id) .read (fun _ => functionName c declaration)
      (fun _ => functionName c' declaration) .read := by
  unfold functionName
  refine .ifKind (m := .read) h nofun nofun (.inl rfl) rfl (.refl _) (fun k' _ => ?_) ?_
  · exact .bind (.name _ c c' .functionName h) fun name => .pure _ .read (some name)
  · refine .ite Iff.rfl (fun _ => ?_) fun _ => ?_
    · exact .fail _ _ _ c c' .functionName h
    · exact .pure _ .read none

end

/-!
## Lists, blocks and functions
-/

section

variable (plain : σ.Plain)
include plain h

theorem parallel_sequenceTailRule :
    Parallel d σ (List.map d.id) .start (fun reach => sequenceTailRule reach c)
      (fun reach => sequenceTailRule reach c') .start := by
  unfold sequenceTailRule
  refine .accept h nofun nofun nofun rfl (.inl rfl) (m := .read) rfl Facts.read_covers_start ?_ ?_
  · refine .bind (.goal .assignment h (plain.reaches _ rfl) rfl rfl) fun next => ?_
    refine .bind (.goal .sequenceTail h (plain.reaches _ rfl) rfl rfl) fun more => ?_
    exact .pure _ .read (next :: more)
  · exact .pure _ .start []

theorem parallel_argumentsRule :
    Parallel d σ (List.map d.id) .start (fun reach => argumentsRule reach c)
      (fun reach => argumentsRule reach c') .read := by
  unfold argumentsRule
  refine .bind (.goal .assignment (σ.allowingIn h) (plain.reaches _ rfl) rfl rfl) fun argument => ?_
  refine .accept h nofun nofun nofun rfl (.inl rfl) (m := .read) rfl (.refl _) ?_ ?_
  · refine .bind (.goal .arguments h (plain.reaches _ rfl) rfl rfl) fun more => ?_
    exact .pure _ .read (argument :: more)
  · refine .bind (.closing _ c c' .closeParen .closeArguments h nofun rfl) fun _ => ?_
    exact .pure _ .read [argument]

theorem parallel_argumentListRule (k : Facts) :
    Parallel d σ (List.map d.id) k (fun reach => argumentListRule reach c)
      (fun reach => argumentListRule reach c') .read := by
  unfold argumentListRule
  refine .bind (parallel_expect h .openParen .openArguments k rfl) fun _ => ?_
  refine .accept h nofun nofun nofun rfl (.inl rfl) (m := .read) rfl (.refl _) ?_ ?_
  · exact .loose (.pure _ _ []) (Facts.behind_covers_read nofun)
  · exact .goal .arguments h (plain.reaches _ rfl) rfl rfl

theorem parallel_elementsRule :
    Parallel d σ (List.map (Option.map d.id)) .start (fun reach => elementsRule reach c)
      (fun reach => elementsRule reach c') .read := by
  unfold elementsRule
  refine .choose h nofun nofun rfl rfl ?_ fun k _ => ?_
  · exact .loose (.pure _ _ []) (Facts.behind_covers_read nofun)
  refine .choose h nofun nofun rfl rfl ?_ fun k _ => ?_
  · refine .bind (.goal .elements h (plain.reaches _ rfl) rfl rfl) fun more => ?_
    exact .pure _ .read (none :: more)
  refine .bind (.goal .assignment (σ.allowingIn h) (plain.reaches _ rfl) rfl rfl) fun element => ?_
  refine .accept (m := .read) h nofun nofun nofun rfl (.inl rfl) rfl (.refl _) ?_ ?_
  · refine .bind (.goal .elements h (plain.reaches _ rfl) rfl rfl) fun more => ?_
    exact .pure _ .read (some element :: more)
  · refine .bind (.closing _ c c' .closeBracket .closeArray h nofun rfl) fun _ => ?_
    exact .pure _ .read [some element]

theorem parallel_blockRule (k : Facts) :
    Parallel d σ d.id k (fun reach => blockRule reach c)
    (fun reach => blockRule reach c') .read := by
  unfold blockRule
  refine .position fun start start' hstart => ?_
  refine .bind (parallel_expect h .openBrace .openBlock k rfl) fun _ => ?_
  refine .bind (.goal (.statements .closeBrace) h (plain.reaches _ rfl) rfl rfl)
    fun statements => ?_
  refine .bind (.closing _ c c' .closeBrace .closeBlock h nofun rfl) fun _ => ?_
  exact .add .read c c' start start' (.block statements) h hstart (plain.adds _ rfl) rfl

theorem parallel_parametersRule :
    Parallel d σ (List.map d.id) .start (fun reach => parametersRule reach c)
      (fun reach => parametersRule reach c') .read := by
  unfold parametersRule
  refine .bind (.name _ c c' .parameterName h) fun parameter => ?_
  refine .accept (m := .read) h nofun nofun nofun rfl (.inl rfl) rfl (.refl _) ?_ ?_
  · refine .bind (.goal .parameters h (plain.reaches _ rfl) rfl rfl) fun more => ?_
    exact .pure _ .read (parameter :: more)
  · refine .bind (.closing _ c c' .closeParen .closeParameters h nofun rfl) fun _ => ?_
    exact .pure _ .read [parameter]

theorem parallel_functionRule (declaration : Bool) {k : Facts}
    (hadds : forall name params body, σ.adds (.function name params body declaration))
    (hk : k.next = some (.keyword .functionWord)) :
    Parallel d σ d.id k (fun reach => functionRule reach declaration c)
      (fun reach => functionRule reach declaration c') .read := by
  unfold functionRule
  refine .position fun start start' hstart => .bind (.step h hk nofun nofun rfl) fun _ => ?_
  refine .bind (.anyFacts (parallel_functionName h declaration) (Facts.behind_covers_read nofun))
    fun name => ?_
  refine .bind (parallel_expect h .openParen .openParameters _ rfl) fun _ => ?_
  refine .accept (m := .read) h nofun nofun nofun rfl (.inl rfl) rfl (.refl _) ?_ ?_
  · refine .bind (u := List.map d.id) (.pure _ _ []) fun params => ?_
    refine .bind (parallel_blockRule h plain _) fun body => ?_
    exact .add .read c c' start start' (.function name params body declaration) h hstart
      (hadds _ _ _) rfl
  · refine .bind (.goal .parameters h (plain.reaches _ rfl) rfl rfl) fun params => ?_
    refine .bind (parallel_blockRule h plain _) fun body => ?_
    exact .add .read c c' start start' (.function name params body declaration) h hstart
      (hadds _ _ _) rfl

end

section

variable (full : σ.Full)
include full h

/-!
## Sequences, assignments and conditionals
-/

theorem parallel_expressionRule :
    Parallel d σ d.id .start (fun reach => expressionRule reach c)
      (fun reach => expressionRule reach c') .read := by
  unfold expressionRule
  refine .position fun start start' hstart => ?_
  refine .bind (.goal .assignment h (full.reaches _ rfl) rfl rfl) fun first => ?_
  refine .bind (.goal .sequenceTail h (full.reaches _ rfl) rfl rfl) fun more => ?_
  cases more with
  | nil => exact .pure d.id .read first
  | cons next more => exact .add .read c c' start start' _ h hstart (full.adds _) rfl

theorem parallel_conditionalRule :
    Parallel d σ d.id .start (fun reach => conditionalRule reach c)
      (fun reach => conditionalRule reach c') .read := by
  unfold conditionalRule
  refine .position fun start start' hstart => ?_
  refine .bind (.goal (.binary 0) h (full.reaches _ rfl) rfl rfl) fun test => ?_
  refine .accept h nofun nofun nofun rfl (.inl rfl) (m := .read) rfl (.refl _) ?_ ?_
  · refine .bind (.goal .assignment (σ.allowingIn h) (full.reaches _ rfl) rfl rfl)
      fun consequent => ?_
    refine .bind (parallel_expect h .colon .conditionalColon _ rfl) fun _ => ?_
    refine .bind (.goal .assignment h (full.reaches _ rfl) rfl rfl) fun alternative => ?_
    exact .add .read c c' start start' _ h hstart (full.adds _) rfl
  · exact .pure d.id .read test

theorem parallel_assignmentRule :
    Parallel d σ d.id .start (fun reach => assignmentRule reach c)
      (fun reach => assignmentRule reach c') .read := by
  unfold assignmentRule
  refine .position fun start start' hstart =>
    .bind (parallel_conditionalRule h full) fun target => ?_
  refine .lookKind (m := .read) h (fun kind => (AssignmentOperator.ofKind? kind).isNone) rfl
    (fun _ => rfl) (.inl rfl) rfl
    (.refl _) ?_ (.pure d.id _ target) ?_
  · intro kind hnone
    rw [Option.isNone_iff_eq_none.mp hnone]
    exact ⟨rfl, rfl⟩
  · intro kind hsome k' hk'
    cases hoperator : AssignmentOperator.ofKind? kind with
    | none =>
        rw [hoperator] at hsome
        cases hsome
    | some operator =>
        refine .bind (.advance c c' kind h rfl ?_ ?_ fun _ => hk'.inside) fun _ => ?_
        · intro hend
          rw [hend] at hoperator
          cases hoperator
        · intro hin
          rw [hin] at hoperator
          cases hoperator
        refine .bind (.goal .assignment h (full.reaches _ rfl) rfl rfl) fun value => ?_
        exact .add _ c c' start start' _ h hstart (full.adds _) rfl

/-!
## Accesses, calls and constructions
-/

theorem parallel_propertyName {k : Facts} (hk : k.agreed = true) :
    Parallel d σ d.id k (fun _ => propertyName c) (fun _ => propertyName c') .read := by
  unfold propertyName
  refine .position fun start start' hstart => .seek h rfl fun t t' halike k' hk' => ?_
  rw [halike.kind, halike.lexeme]
  have hname (hend : t.kind ≠ .endOfText) (hmark : forall mark, t.kind ≠ .punctuator mark) :=
    parallel_leaf (d := d) h hstart t (.identifier t.lexeme) (full.adds _) rfl rfl hend
      (fun _ => hk'.agreed.trans hk) hmark
  split
  case h_4 => exact .fail d.id _ _ c c' .propertyName h
  next hkind => exact hname (by simp [hkind]) (by simp [hkind])
  next hkind => exact hname (by simp [hkind]) (by simp [hkind])
  next hkind => exact hname (by simp [hkind]) (by simp [hkind])

theorem parallel_constructionRule {k : Facts} (hk : k.next = some (.keyword .newWord)) :
    Parallel d σ d.id k (fun reach => constructionRule reach c)
      (fun reach => constructionRule reach c') .read := by
  unfold constructionRule
  refine .position fun start start' hstart => .bind (.step h hk nofun nofun rfl) fun _ => ?_
  refine .bind (u := d.id) (m := .read) (.nested c c' h ?_) fun target => ?_
  · exact .goal (.member false) (σ.deeper h) (full.reaches _ rfl) rfl rfl
  refine .ifKind h nofun nofun (.inl rfl) (m := .read) rfl (.refl _) (fun k' _ => ?_) ?_
  · refine .bind (u := Option.map (List.map d.id))
      (.map (parallel_argumentListRule h full.plain _) fun _ => rfl) fun arguments => ?_
    exact .add .read c c' start start' (.construction target arguments) h hstart (full.adds _) rfl
  · refine .bind (u := Option.map (List.map d.id)) (.pure _ _ none) fun arguments => ?_
    exact .add .read c c' start start' (.construction target arguments) h hstart (full.adds _) rfl

/-- An access or a call takes tokens, and with any other token nothing follows. -/
theorem parallel_memberTailRule (calls : Bool) {start start' : Nat}
    (hstart : σ.starts start start') (front : NodeId) :
    Parallel d σ d.id .start (fun reach => memberTailRule reach calls start front c)
      (fun reach => memberTailRule reach calls start' (d.id front) c') .start := by
  unfold memberTailRule
  refine .lookKind (m := .read) h (fun kind => kind ≠ .punctuator .dot &&
    (kind ≠ .punctuator .openBracket && (kind ≠ .punctuator .openParen || !calls))) rfl
    (fun _ => rfl)
    (.inl rfl) rfl Facts.read_covers_start ?_ (.pure d.id _ front) ?_
  · intro kind hstays
    split
    next => cases hstays
    next => cases hstays
    next =>
      cases calls with
      | true => cases hstays
      | false => exact ⟨rfl, rfl⟩
    next => exact ⟨rfl, rfl⟩
  · intro kind hreads k' _
    split
    next =>
      refine .bind (.step h rfl nofun nofun rfl) fun _ => ?_
      refine .bind (parallel_propertyName h full rfl) fun name => ?_
      refine .bind (.add .read c c' start start' (.propertyAccess front name) h hstart
        (full.adds _) rfl) fun access => ?_
      exact .goOn (.memberTail calls start access) h hstart rfl (full.reaches _ rfl) rfl
    next =>
      refine .bind (.step h rfl nofun nofun rfl) fun _ => ?_
      refine .bind (.goal .expression (σ.allowingIn h) (full.reaches _ rfl) rfl rfl)
        fun element => ?_
      refine .bind (.closing _ c c' .closeBracket .closeIndex h nofun rfl) fun _ => ?_
      refine .bind (.add .read c c' start start' (.elementAccess front element) h hstart
        (full.adds _) rfl) fun access => ?_
      exact .goOn (.memberTail calls start access) h hstart rfl (full.reaches _ rfl) rfl
    next =>
      cases calls with
      | false => cases hreads
      | true =>
          refine .bind (parallel_argumentListRule h full.plain _) fun arguments => ?_
          refine .bind (.add .read c c' start start' (.call front arguments) h hstart
            (full.adds _) rfl) fun call => ?_
          exact .goOn (.memberTail true start call) h hstart rfl (full.reaches _ rfl) rfl
    next hdot hbracket hparen =>
      have hfollows : kind ≠ .punctuator .dot -> kind ≠ .punctuator .openBracket ->
          kind = .punctuator .openParen ∧ calls = true := by
        simpa using hreads
      exact absurd (hfollows hdot hbracket).1 hparen

/-!
## Literals and other operands
-/

theorem parallel_parenthesizedRule {k : Facts} (hk : k.next = some (.punctuator .openParen)) :
    Parallel d σ d.id k (fun reach => parenthesizedRule reach c)
      (fun reach => parenthesizedRule reach c') .read := by
  unfold parenthesizedRule
  refine .position fun start start' hstart => .bind (.step h hk nofun nofun rfl) fun _ => ?_
  refine .bind (.goal .expression (σ.allowingIn h) (full.reaches _ rfl) rfl rfl)
    fun expression => ?_
  refine .bind (.closing _ c c' .closeParen .closeParentheses h nofun rfl) fun _ => ?_
  exact .add .read c c' start start' (.parenthesized expression) h hstart (full.adds _) rfl

theorem parallel_arrayRule {k : Facts} (hk : k.next = some (.punctuator .openBracket)) :
    Parallel d σ d.id k (fun reach => arrayRule reach c)
    (fun reach => arrayRule reach c') .read := by
  unfold arrayRule
  refine .position fun start start' hstart => .bind (.step h hk nofun nofun rfl) fun _ => ?_
  refine .bind (.goal .elements h (full.reaches _ rfl) rfl rfl) fun elements => ?_
  exact .add .read c c' start start' (.array elements) h hstart (full.adds _) rfl

theorem parallel_objectRule {k : Facts} (hk : k.next = some (.punctuator .openBrace)) :
    Parallel d σ d.id k (fun reach => objectRule reach c)
      (fun reach => objectRule reach c') .read := by
  unfold objectRule
  refine .position fun start start' hstart => .bind (.step h hk nofun nofun rfl) fun _ => ?_
  refine .bind (.reach .properties 0 c c' false h (full.reaches _ rfl) nofun (fun _ => rfl) nofun)
    fun properties => ?_
  exact .add .read c c' start start' (.object properties) h hstart (full.adds _) rfl

theorem parallel_operand {k : Facts} {start start' : Nat} (hstart : σ.starts start start')
    {t : Token} {node : Node} (hnode : operand? t = some node) :
    Parallel d σ d.id (k.seeing t.kind)
      (fun _ => advance c >>= fun _ => addSince c start node)
      (fun _ => advance c' >>= fun _ => addSince c' start' node) .read :=
  parallel_leaf h hstart t node (full.adds _) (operand?_takesSemicolon hnode) (operand?_map hnode d)
    (operand?_ne_endOfText hnode) (fun hin => absurd hin (operand?_kind_ne hnode .semicolon).2)
    fun mark => (operand?_kind_ne hnode mark).1

theorem parallel_propertyKey {k : Facts} (hk : k.agreed = true) :
    Parallel d σ d.id k (fun _ => propertyKey c) (fun _ => propertyKey c') .read := by
  unfold propertyKey
  refine .position fun start start' hstart => .seek h rfl fun t t' halike k' hk' => ?_
  rw [halike.keyLiteral?_eq]
  cases hliteral : keyLiteral? t with
  | none => exact parallel_propertyName h full (hk'.agreed.trans hk)
  | some literal => exact parallel_operand h full hstart (operand?_of_keyLiteral? hliteral)

theorem parallel_propertyRule {k : Facts} (hk : k.agreed = true) :
    Parallel d σ d.id k (fun reach => propertyRule reach c)
      (fun reach => propertyRule reach c') .read := by
  unfold propertyRule
  refine .position fun start start' hstart => .bind (parallel_propertyKey h full hk) fun key => ?_
  refine .bind (parallel_expect h .colon .propertyColon _ rfl) fun _ => ?_
  refine .bind (.goal .assignment (σ.allowingIn h) (full.reaches _ rfl) rfl rfl) fun value => ?_
  exact .add .read c c' start start' (.property key value) h hstart (full.adds _) rfl

theorem parallel_propertiesRule :
    Parallel d σ (List.map d.id) .fresh (fun reach => propertiesRule reach c)
      (fun reach => propertiesRule reach c') .read := by
  unfold propertiesRule
  refine .choose h nofun nofun rfl rfl ?_ fun k hk => ?_
  · exact .loose (.pure _ _ []) (Facts.behind_covers_read nofun)
  refine .bind (parallel_propertyRule h full hk.agreed) fun property => ?_
  refine .accept (m := .read) h nofun nofun nofun rfl (.inl rfl) rfl (.refl _) ?_ ?_
  · refine .bind (.reach .properties 0 c c' false h (full.reaches _ rfl) nofun (fun _ => rfl) nofun)
      fun more => ?_
    exact .pure _ .read (property :: more)
  · refine .bind (.closing _ c c' .closeBrace .closeObject h nofun rfl) fun _ => ?_
    exact .pure _ .read [property]

theorem parallel_operandRule (k : Facts) :
    Parallel d σ d.id k (fun reach => operandRule reach c)
      (fun reach => operandRule reach c') .read := by
  unfold operandRule
  refine .position fun start start' hstart => .seek h rfl fun t t' halike k' _ => ?_
  rw [halike.operand?_eq, halike.kind]
  cases hoperand : operand? t with
  | some node => exact parallel_operand h full hstart hoperand
  | none =>
      dsimp only
      split
      next hkind =>
        exact parallel_functionRule h full.plain false (fun _ _ _ => full.adds _)
          (congrArg some hkind)
      next hkind => exact parallel_parenthesizedRule h full (congrArg some hkind)
      next hkind => exact parallel_arrayRule h full (congrArg some hkind)
      next hkind => exact parallel_objectRule h full (congrArg some hkind)
      next => exact .fail d.id _ _ c c' .endOfText h
      next => exact .fail d.id _ _ c c' .unexpectedToken h

theorem parallel_memberRule (calls : Bool) :
    Parallel d σ d.id .start (fun reach => memberRule reach calls c)
      (fun reach => memberRule reach calls c') .read := by
  unfold memberRule
  refine .position fun start start' hstart => ?_
  simp only [peekKind_bind_eq]
  refine .seek h rfl fun t t' halike k' _ => ?_
  rw [halike.kind]
  refine .ite Iff.rfl (fun hnew => ?_) fun _ => ?_
  · refine .bind (parallel_constructionRule h full (congrArg some hnew)) fun front => ?_
    exact .goOn (.memberTail calls start front) h hstart rfl (full.reaches _ rfl) rfl
  · refine .bind (parallel_operandRule h full _) fun front => ?_
    exact .goOn (.memberTail calls start front) h hstart rfl (full.reaches _ rfl) rfl

/-!
## Unary operators and updates
-/

theorem parallel_updateRule (k : Facts) :
    Parallel d σ d.id k (fun reach => updateRule reach c)
      (fun reach => updateRule reach c') .read := by
  unfold updateRule
  refine .position fun start start' hstart => ?_
  refine .bind (m := .read) (.goal (.member true) h (full.reaches _ rfl) rfl rfl) fun operand => ?_
  refine .look (m := .read) c c'
    (fun t => (UpdateOperator.ofKind? t.kind).isNone || t.newlineBefore) h rfl (.refl _) ?_ ?_
  · intro t t' hstays hnear
    have halike := hnear.of_unended rfl
    have hstays₁ : ((UpdateOperator.ofKind? t.kind).isNone || t.newlineBefore) = true := by
      rcases halike with halike | hatEnd | hmark
      · rw [← halike.kind, ← halike.newlineBefore rfl]
        exact hstays
      · rw [hatEnd]
        rfl
      · rw [hmark]
        rfl
    have hreturn : Parallel d σ d.id .read (fun _ => pure operand) (fun _ => pure (d.id operand))
        .read := .pure d.id _ operand
    cases hoperator : UpdateOperator.ofKind? t.kind with
    | none =>
        cases hoperator' : UpdateOperator.ofKind? t'.kind with
        | none => exact hreturn
        | some operator' =>
            rw [hoperator'] at hstays
            have hline' : t'.newlineBefore = true := hstays
            simp only [if_pos hline']
            exact hreturn
    | some operator =>
        rw [hoperator] at hstays₁
        have hline : t.newlineBefore = true := hstays₁
        simp only [if_pos hline]
        cases hoperator' : UpdateOperator.ofKind? t'.kind with
        | none => exact hreturn
        | some operator' =>
            rw [hoperator'] at hstays
            have hline' : t'.newlineBefore = true := hstays
            simp only [if_pos hline']
            exact hreturn
  · intro t t' hreads halike k' _
    rw [halike.kind, halike.newlineBefore rfl] at hreads ⊢
    cases hoperator : UpdateOperator.ofKind? t.kind with
    | none =>
        rw [hoperator] at hreads
        cases hreads
    | some operator =>
        rw [hoperator] at hreads
        have hline : ¬ t.newlineBefore = true := by
          intro hline
          rw [hline] at hreads
          cases hreads
        simp only [if_neg hline]
        refine .bind (.step h rfl (updateOperator_ne_endOfText hoperator) ?_
          (updateOperator_isSlash hoperator)) fun _ => ?_
        · intro hin
          rw [hin] at hoperator
          cases hoperator
        refine .anyFacts (.add .read c c' start start' _ h hstart (full.adds _) rfl)
          (Facts.behind_covers_read ?_)
        intro hmark
        rw [hmark] at hoperator
        cases hoperator

theorem parallel_unaryRule :
    Parallel d σ d.id .start (fun reach => unaryRule reach c)
      (fun reach => unaryRule reach c') .read := by
  unfold unaryRule
  refine .position fun start start' hstart => ?_
  simp only [peekKind_bind_eq]
  refine .seek h rfl fun t t' halike k' _ => ?_
  rw [halike.kind]
  cases hunary : UnaryOperator.ofKind? t.kind with
  | some operator =>
      refine .bind (.step h rfl (unaryOperator_ne_endOfText hunary) ?_
        (unaryOperator_isSlash hunary)) fun _ => ?_
      · intro hin
        rw [hin] at hunary
        cases hunary
      refine .bind (.goal .unary h (full.reaches _ rfl) rfl rfl) fun operand => ?_
      exact .add .read c c' start start' (.unary operator operand) h hstart (full.adds _) rfl
  | none =>
      cases hupdate : UpdateOperator.ofKind? t.kind with
      | some operator =>
          dsimp only
          refine .bind (.step h rfl (updateOperator_ne_endOfText hupdate) ?_
            (updateOperator_isSlash hupdate)) fun _ => ?_
          · intro hin
            rw [hin] at hupdate
            cases hupdate
          refine .bind (.goal .unary h (full.reaches _ rfl) rfl rfl) fun operand => ?_
          exact .add .read c c' start start' (.update operator .before operand) h hstart
            (full.adds _) rfl
      | none =>
          exact parallel_updateRule h full _

end

end Grammar
end ScriptHints
