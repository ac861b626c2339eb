import ScriptHints.Proofs.Parallel.Expressions

/-!
# The rules for statements as parallel readings

One lemma for each rule, and with them all goals that are reached by a rule alone. Every form
of a statement reads a token, and what it does behind its last token does not depend on the
token that comes next, as long as that one is no part of it.
-/

namespace ScriptHints
namespace Grammar

open Syntax Token

variable {d : Offset} {σ : Scope} {c c' : Context} (h : σ.link c c') (plain : σ.Plain)

/-!
## Lists of statements
-/

section

include h plain

theorem parallel_statementsRule (listEnd : ListEnd) :
    Parallel d σ (List.map d.id) .atList (fun reach => statementsRule reach listEnd c)
      (fun reach => statementsRule reach listEnd c') .anywhere := by
  unfold statementsRule
  refine .lookKind (m := .listed) h (fun kind => kind = .endOfText || listEnd.covers kind) rfl
    nofun (.inl rfl) rfl (Facts.covers_anywhere _) ?_
    (.loose (.pure (List.map d.id) _ []) (Facts.covers_anywhere _)) ?_
  · intro kind hstays
    simp only [if_pos hstays, List.map_nil, and_self]
  · intro kind hreads k' _
    rw [Bool.eq_false_iff] at hreads
    simp only [if_neg hreads]
    refine .bind (.goal .branch h (plain.reaches _ rfl) rfl rfl) fun statement => ?_
    refine .bind (.goal (.statements listEnd) h (plain.reaches _ rfl) rfl rfl) fun more => ?_
    exact .pure _ _ (statement :: more)

/-!
## Declarations and simple statements
-/

theorem parallel_variableRule (k : Facts) :
    Parallel d σ d.id k (fun reach => variableRule reach c)
      (fun reach => variableRule reach c') .read := by
  unfold variableRule
  refine .position fun start start' hstart => .bind (.name _ c c' .variableName h) fun target => ?_
  refine .accept (m := .read) h nofun nofun nofun rfl (.inl rfl) rfl (.refl _) ?_ ?_
  · refine .bind (u := Option.map d.id) (.map (.goal .assignment h (plain.reaches _ rfl) rfl rfl)
      fun _ => rfl) fun initializer => ?_
    exact .add _ c c' start start' (.variable target initializer) h hstart (plain.adds _ rfl) rfl
  · refine .bind (u := Option.map d.id) (.pure _ _ none) fun initializer => ?_
    exact .add _ c c' start start' (.variable target initializer) h hstart (plain.adds _ rfl) rfl

theorem parallel_variablesRule :
    Parallel d σ (List.map d.id) .start (fun reach => variablesRule reach c)
      (fun reach => variablesRule reach c') .read := by
  unfold variablesRule
  refine .bind (parallel_variableRule h plain _) fun declared => ?_
  refine .accept (m := .read) h nofun nofun nofun rfl (.inl rfl) rfl (.refl _) ?_ ?_
  · refine .bind (.goal .variables h (plain.reaches _ rfl) rfl rfl) fun more => ?_
    exact .pure _ _ (declared :: more)
  · exact .pure _ _ [declared]

theorem parallel_declarationRule {k : Facts} (hk : k.next = some (.keyword .varWord)) :
    Parallel d σ d.id k (fun reach => declarationRule reach true c)
      (fun reach => declarationRule reach true c') .ended := by
  have hrule (c : Context) (reach : Strategy) : declarationRule reach true c =
      endedBy c (.required .endOfDeclaration) (.variables · true)
        (advance c >>= fun _ => reach .variables c) := by
    unfold declarationRule endedBy
    simp only [bind_assoc]
    rfl
  simp only [hrule]
  refine .anyFacts (.finish (m := .read) c c' _ _ _ h rfl ?_ (fun _ => rfl) nofun
    (fun _ => rfl) rfl rfl rfl)
    (Facts.covers_anywhere_seeing hk)
  refine .bind (.step h rfl nofun nofun rfl) fun _ => ?_
  exact .goal .variables h (plain.reaches _ rfl) rfl rfl

theorem parallel_loopDeclaration {k : Facts} (hk : k.next = some (.keyword .varWord)) :
    Parallel d σ d.id k (fun reach => declarationRule reach false c.forbiddingIn)
      (fun reach => declarationRule reach false c'.forbiddingIn) .common := by
  have hforbid := σ.forbiddingIn h
  unfold declarationRule
  refine .position fun start start' hstart => .bind (.step hforbid hk nofun nofun rfl) fun _ => ?_
  refine .bind (.reach .variables 0 _ _ true hforbid (plain.reaches _ rfl) nofun nofun
    fun _ => ⟨rfl, rfl⟩) fun declared => ?_
  exact .add _ _ _ start start' (.variables declared false) hforbid hstart (plain.adds _ rfl) rfl

theorem parallel_emptyRule {k : Facts} (hk : k.next = some (.punctuator .semicolon)) :
    Parallel d σ d.id k (fun _ => emptyRule c) (fun _ => emptyRule c') .ended := by
  unfold emptyRule
  refine .position fun start start' hstart => .bind (.step h hk nofun nofun rfl) fun _ => ?_
  exact .loose (.add _ c c' start start' .empty h hstart (plain.adds _ rfl) rfl)
    (Facts.behind_covers_ended _)

theorem parallel_expressionStatementRule (k : Facts) :
    Parallel d σ d.id k (fun reach => expressionStatementRule reach c)
      (fun reach => expressionStatementRule reach c') .ended := by
  have hrule (c : Context) (reach : Strategy) : expressionStatementRule reach c =
      endedBy c (.required .endOfExpression) .expressionStatement (reach .expression c) := rfl
  simp only [hrule]
  exact .anyFacts (.finish c c' _ _ _ h rfl (.goal .expression h (plain.reaches _ rfl) rfl rfl)
    (fun _ => rfl) nofun (fun _ => rfl) rfl rfl rfl) k.covers_anywhere

/-!
## Jumps
-/

omit plain in
theorem parallel_jumpLabel :
    Parallel d σ (Option.map d.id) .read (fun _ => jumpLabel c) (fun _ => jumpLabel c') .read := by
  unfold jumpLabel
  refine .look (m := .read) c c' (fun t => !(t.kind = .identifier && !t.newlineBefore)) h rfl
    (.refl _) ?_ ?_
  · intro t t' hstays hnear
    have halike := hnear.of_unended rfl
    have hother' : ¬ (t'.kind = .identifier && !t'.newlineBefore) = true := by
      rw [Bool.not_eq_true, ← Bool.not_eq_true']
      exact hstays
    have hother : ¬ (t.kind = .identifier && !t.newlineBefore) = true := by
      rcases halike with halike | hatEnd | hmark
      · rw [← halike.kind, ← halike.newlineBefore rfl]
        exact hother'
      · rw [hatEnd]
        exact nofun
      · rw [hmark]
        exact nofun
    simp only [if_neg hother, if_neg hother']
    exact .pure _ _ none
  · intro t t' hreads halike k' _
    rw [halike.kind, halike.newlineBefore rfl] at hreads ⊢
    have hlabel : (t.kind = .identifier && !t.newlineBefore) = true := by
      rw [Bool.not_eq_false'] at hreads
      exact hreads
    simp only [if_pos hlabel]
    exact .bind (.name _ c c' .label h) fun name => .pure _ _ (some name)

omit plain in
theorem parallel_jumpRule {k : Facts} (jump : Option NodeId → Node) (word : Keyword)
    (hword : word ≠ .inWord) (hk : k.next = some (.keyword word))
    (hjump : forall label, (jump label).map d.id = jump (label.map d.id))
    (hplain : forall label, (jump label).isExpression = false) :
    Parallel d σ d.id k (fun _ => jumpRule jump c) (fun _ => jumpRule jump c') .ended := by
  have hrule (c : Context) : jumpRule jump c =
      endedBy c (.required .endOfJump) jump (advance c >>= fun _ => jumpLabel c) := by
    unfold jumpRule endedBy
    simp only [bind_assoc]
    rfl
  simp only [hrule]
  refine .anyFacts (.finish (m := .read) c c' _ _ _ h rfl ?_ (fun label => (hjump label).symm) nofun
    hplain rfl rfl rfl)
    (Facts.covers_anywhere_seeing hk)
  refine .bind (.step h rfl nofun ?_ rfl) fun _ => ?_
  · intro hin
    injection hin with hin
    exact absurd hin hword
  · exact .anyFacts (parallel_jumpLabel h) (Facts.behind_covers_read nofun)

theorem parallel_returnRule {k : Facts} (hk : k.next = some (.keyword .returnWord)) :
    Parallel d σ d.id k (fun reach => returnRule reach c) (fun reach => returnRule reach c')
      .ended := by
  have hrule (c : Context) (reach : Strategy) : returnRule reach c =
      endedBy c (.required .endOfReturn) .returnValue (advance c >>= fun _ => peek c >>= fun next =>
        if returnsNothing next then pure none else some <$> reach .expression c) := by
    unfold returnRule endedBy
    simp only [bind_assoc]
    refine congrArg _ (funext fun start =>
      congrArg _ (funext fun _ => congrArg _ (funext fun next => ?_)))
    split <;> rfl
  simp only [hrule]
  refine .anyFacts (.finish (m := .read) c c' _ _ _ h rfl ?_ (fun _ => rfl) nofun
    (fun _ => rfl) rfl rfl rfl)
    (Facts.covers_anywhere_seeing hk)
  refine .bind (.step h rfl nofun nofun rfl) fun _ => ?_
  refine .anyFacts (.look (m := .read) c c' returnsNothing h rfl (.refl _) ?_ ?_)
    (Facts.behind_covers_read nofun)
  · intro t t' hstays hnear
    have halike := hnear.of_unended rfl
    have hstays₁ : returnsNothing t = true := by
      rcases halike with halike | hatEnd | hmark
      · unfold returnsNothing at hstays ⊢
        rw [← halike.kind, ← halike.newlineBefore rfl]
        exact hstays
      · simp [returnsNothing, hatEnd]
      · simp [returnsNothing, hmark]
    simp only [if_pos hstays, if_pos hstays₁]
    exact .pure _ _ none
  · intro t t' hreads halike k' _
    have hreads₁ : ¬ returnsNothing t = true := by
      unfold returnsNothing at hreads ⊢
      rw [← halike.kind, ← halike.newlineBefore rfl, hreads]
      exact nofun
    have hreads' : ¬ returnsNothing t' = true := by
      rw [hreads]
      exact nofun
    simp only [if_neg hreads₁, if_neg hreads']
    exact .map (.goal .expression h (plain.reaches _ rfl) rfl rfl) fun _ => rfl

theorem parallel_throwRule {k : Facts} (hk : k.next = some (.keyword .throwWord)) :
    Parallel d σ d.id k (fun reach => throwRule reach c) (fun reach => throwRule reach c')
      .ended := by
  have hrule (c : Context) (reach : Strategy) : throwRule reach c =
      endedBy c (.required .endOfThrow) .throwValue (advance c >>= fun _ => peek c >>= fun next =>
        if next.newlineBefore || next.kind = .endOfText then fail c .thrownValue
        else reach .expression c) := by
    unfold throwRule endedBy
    simp only [bind_assoc]
    refine congrArg _ (funext fun start =>
      congrArg _ (funext fun _ => congrArg _ (funext fun next => ?_)))
    split <;> rfl
  simp only [hrule]
  refine .anyFacts (.finish (m := .read) c c' _ _ _ h rfl ?_ (fun _ => rfl) nofun
    (fun _ => rfl) rfl rfl rfl)
    (Facts.covers_anywhere_seeing hk)
  refine .bind (.step h rfl nofun nofun rfl) fun _ => ?_
  refine .seek h rfl fun t t' halike k' _ => ?_
  rw [halike.kind, halike.newlineBefore rfl]
  refine .ite Iff.rfl (fun _ => .fail _ _ _ c c' .thrownValue h) fun _ => ?_
  exact .goal .expression h (plain.reaches _ rfl) rfl rfl

/-!
## Conditions and loops
-/

theorem parallel_conditionRule (header : Header) (k : Facts) :
    Parallel d σ d.id k (fun reach => conditionRule reach header c)
      (fun reach => conditionRule reach header c') .read := by
  unfold conditionRule
  refine .bind (parallel_expect h .openParen (.openHeader header) k rfl) fun _ => ?_
  refine .bind (.goal .expression (σ.allowingIn h) (plain.reaches _ rfl) rfl rfl)
    fun condition => ?_
  refine .bind (.closing _ c c' .closeParen (.closeHeader header) h nofun rfl) fun _ => ?_
  exact .pure _ _ condition

theorem parallel_ifRule {k : Facts} (hk : k.next = some (.keyword .ifWord)) :
    Parallel d σ d.id k (fun reach => ifRule reach c) (fun reach => ifRule reach c') .ended := by
  unfold ifRule
  refine .position fun start start' hstart => .bind (.step h hk nofun nofun rfl) fun _ => ?_
  refine .bind (parallel_conditionRule h plain .ifElse _) fun condition => ?_
  refine .bind (.goal .branch h (plain.reaches _ rfl) rfl rfl) fun thenBranch => ?_
  refine .accept (m := .ended) h nofun nofun nofun rfl (.inr rfl) rfl (.refl _) ?_ ?_
  · refine .bind (u := Option.map d.id) (.map (.goal .branch h (plain.reaches _ rfl) rfl rfl)
      fun _ => rfl) fun elseBranch => ?_
    exact .add _ c c' start start' (.ifElse condition thenBranch elseBranch) h hstart
      (plain.adds _ rfl) rfl
  · refine .bind (u := Option.map d.id) (.pure _ _ none) fun elseBranch => ?_
    exact .add _ c c' start start' (.ifElse condition thenBranch elseBranch) h hstart
      (plain.adds _ rfl) rfl

theorem parallel_whileRule {k : Facts} (hk : k.next = some (.keyword .whileWord)) :
    Parallel d σ d.id k (fun reach => whileRule reach c) (fun reach => whileRule reach c')
      .ended := by
  unfold whileRule
  refine .position fun start start' hstart => .bind (.step h hk nofun nofun rfl) fun _ => ?_
  refine .bind (parallel_conditionRule h plain .whileLoop _) fun condition => ?_
  refine .bind (.goal .branch h (plain.reaches _ rfl) rfl rfl) fun body => ?_
  exact .add _ c c' start start' (.whileLoop condition body) h hstart (plain.adds _ rfl) rfl

omit h plain in
theorem optional_bind_eq (c : Context) (f : Unit → Reader α) :
    (Ending.optional.read c >>= f) = (accept c (.punctuator .semicolon) >>= fun _ => f ()) := by
  exact bind_map_left _ _ _

theorem parallel_doWhileRule {k : Facts} (hk : k.next = some (.keyword .doWord)) :
    Parallel d σ d.id k (fun reach => doWhileRule reach c) (fun reach => doWhileRule reach c')
      .ended := by
  have hrule (c : Context) (reach : Strategy) : doWhileRule reach c =
      endedBy c .optional (fun (parts : NodeId × NodeId) => .doWhileLoop parts.1 parts.2)
        (advance c >>= fun _ => reach .branch c >>= fun body =>
          accept c (.keyword .whileWord) >>= fun found =>
            if found then conditionRule reach .doWhileLoop c >>= fun condition =>
              pure (body, condition)
            else fail c .loopCondition) := by
    unfold doWhileRule endedBy
    simp only [bind_assoc, optional_bind_eq]
    refine congrArg _ (funext fun start =>
      congrArg _ (funext fun _ => congrArg _ (funext fun body =>
      congrArg _ (funext fun found => ?_))))
    cases found with
    | false => rfl
    | true => simp only [if_true, bind_assoc, pure_bind]
  simp only [hrule]
  refine .anyFacts (.finish (u := Prod.map d.id d.id) (m := .read) c c' _ _ _ h rfl ?_
    (fun _ => rfl)
    (fun _ _ => rfl) (fun _ => rfl) rfl rfl rfl) (Facts.covers_anywhere_seeing hk)
  refine .bind (.step h rfl nofun nofun rfl) fun _ => ?_
  refine .bind (.goal .branch h (plain.reaches _ rfl) rfl rfl) fun body => ?_
  refine .choose h nofun nofun rfl rfl ?_ fun k' _ => .fail _ _ _ c c' .loopCondition h
  refine .bind (parallel_conditionRule h plain .doWhileLoop _) fun condition => ?_
  exact .pure _ _ (body, condition)

theorem parallel_withRule {k : Facts} (hk : k.next = some (.keyword .withWord)) :
    Parallel d σ d.id k (fun reach => withRule reach c) (fun reach => withRule reach c')
      .ended := by
  unfold withRule
  refine .position fun start start' hstart => .bind (.step h hk nofun nofun rfl) fun _ => ?_
  refine .bind (parallel_conditionRule h plain .withObject _) fun subject => ?_
  refine .bind (.goal .branch h (plain.reaches _ rfl) rfl rfl) fun body => ?_
  exact .add _ c c' start start' (.withObject subject body) h hstart (plain.adds _ rfl) rfl

/-- A clause reads an expression or nothing, and then the token that ends it is read. -/
theorem parallel_clauseRule (stop : Punctuator) {α β : Type} {v : α → β} {k l : Facts}
    {f : Option NodeId → Attempt α} {f' : Option NodeId → Attempt β} (hl : l.moved = true)
    (hf : forall k clause, Parallel d σ v k (f clause) (f' (clause.map d.id)) l) :
    Parallel d σ v k (fun reach => clauseRule reach stop c >>= fun clause => f clause reach)
      (fun reach => clauseRule reach stop c' >>= fun clause => f' clause reach) l := by
  unfold clauseRule
  simp only [peekKind_bind_eq, bind_assoc]
  refine .seek h hl fun t t' halike k' _ => ?_
  rw [halike.kind]
  by_cases hstop : t.kind = .punctuator stop
  · simp only [if_pos hstop, pure_bind]
    exact hf _ none
  · simp only [if_neg hstop, bind_map_left]
    exact .bind (.goal .expression (σ.allowingIn h) (plain.reaches _ rfl) rfl rfl)
      fun clause => hf _ (some clause)

theorem parallel_forInTailRule {start start' : Nat} (hstart : σ.starts start start')
    (iterator : NodeId) (k : Facts) :
    Parallel d σ d.id k (fun reach => forInTailRule reach start iterator c)
      (fun reach => forInTailRule reach start' (d.id iterator) c') .ended := by
  unfold forInTailRule
  refine .bind (.goal .expression (σ.allowingIn h) (plain.reaches _ rfl) rfl rfl) fun subject => ?_
  refine .bind (.closing _ c c' .closeParen .closeForIn h nofun rfl) fun _ => ?_
  refine .bind (.goal .branch h (plain.reaches _ rfl) rfl rfl) fun body => ?_
  exact .add _ c c' start start' (.forInLoop iterator subject body) h hstart (plain.adds _ rfl) rfl

theorem parallel_forTailRule {start start' : Nat} (hstart : σ.starts start start')
    (initializer : Option NodeId) (k : Facts) :
    Parallel d σ d.id k (fun reach => forTailRule reach start initializer c)
      (fun reach => forTailRule reach start' (initializer.map d.id) c') .ended := by
  unfold forTailRule
  refine .bind (parallel_expect h .semicolon .endOfForInitializer k rfl) fun _ => ?_
  refine parallel_clauseRule h plain .semicolon rfl fun _ condition => ?_
  refine .bind (parallel_expect h .semicolon .endOfForCondition _ rfl) fun _ => ?_
  refine parallel_clauseRule h plain .closeParen rfl fun _ step => ?_
  refine .bind (.closing _ c c' .closeParen .closeFor h nofun rfl) fun _ => ?_
  refine .bind (.goal .branch h (plain.reaches _ rfl) rfl rfl) fun body => ?_
  exact .add _ c c' start start' (.forLoop initializer condition step body) h hstart
    (plain.adds _ rfl) rfl

theorem parallel_forRest {start start' : Nat} (hstart : σ.starts start start')
    (initializer : NodeId) {k : Facts} (hk : k.agreed = true) :
    Parallel d σ d.id k
      (fun reach => accept c (.keyword .inWord) >>= fun found =>
        if found then forInTailRule reach start initializer c
        else forTailRule reach start (some initializer) c)
      (fun reach => accept c' (.keyword .inWord) >>= fun found =>
        if found then forInTailRule reach start' (d.id initializer) c'
        else forTailRule reach start' (some (d.id initializer)) c') .ended := by
  refine .choose h nofun (fun _ => hk) rfl rfl ?_ fun k' _ => ?_
  · exact parallel_forInTailRule h plain hstart initializer _
  · exact parallel_forTailRule h plain hstart (some initializer) _

theorem parallel_forRule {k : Facts} (hk : k.next = some (.keyword .forWord)) :
    Parallel d σ d.id k (fun reach => forRule reach c) (fun reach => forRule reach c') .ended := by
  unfold forRule
  refine .position fun start start' hstart => .bind (.step h hk nofun nofun rfl) fun _ => ?_
  refine .bind (parallel_expect h .openParen .openFor _ rfl) fun _ => ?_
  unfold forInitializerRule
  simp only [peekKind_bind_eq, bind_assoc]
  refine .seek h rfl fun t t' halike k' _ => ?_
  rw [halike.kind]
  split
  next =>
    simp only [pure_bind]
    exact parallel_forTailRule h plain hstart none _
  next hvar =>
    simp only [bind_map_left]
    refine .bind (parallel_loopDeclaration h plain (congrArg some hvar)) fun declaration => ?_
    exact parallel_forRest h plain hstart declaration rfl
  next =>
    simp only [bind_map_left]
    refine .bind (.reach .expression 0 _ _ true (σ.forbiddingIn h) (plain.reaches _ rfl) nofun nofun
      fun _ => ⟨rfl, rfl⟩) fun expression => ?_
    exact parallel_forRest h plain hstart expression rfl

/-!
## Switches
-/

theorem parallel_caseTailRule {start start' : Nat} (hstart : σ.starts start start')
    (test : Option NodeId) (k : Facts) :
    Parallel d σ (List.map d.id) k (fun reach => caseTailRule reach start test c)
      (fun reach => caseTailRule reach start' (test.map d.id) c') .read := by
  unfold caseTailRule
  refine .bind (parallel_expect h .colon .endOfCaseLabel k rfl) fun _ => ?_
  refine .bind (.goal (.statements .closeBraceOrCase) h (plain.reaches _ rfl) rfl rfl)
    fun body => ?_
  refine .bind (.add _ c c' start start' (.switchCase test body) h hstart
    (plain.adds _ rfl) rfl) fun case => ?_
  refine .bind (.goal .cases h (plain.reaches _ rfl) rfl rfl) fun more => ?_
  exact .pure _ _ (case :: more)

theorem parallel_casesRule :
    Parallel d σ (List.map d.id) .start (fun reach => casesRule reach c)
      (fun reach => casesRule reach c') .read := by
  unfold casesRule
  refine .position fun start start' hstart => ?_
  simp only [peekKind_bind_eq]
  refine .seek h rfl fun t t' halike k' _ => ?_
  rw [halike.kind]
  split
  next hkind =>
    refine .bind (.step h (congrArg some hkind) nofun nofun rfl) fun _ => ?_
    exact .loose (.pure _ _ []) (Facts.behind_covers_read nofun)
  next hkind =>
    refine .bind (.step h (congrArg some hkind) nofun nofun rfl) fun _ => ?_
    refine .bind (.goal .expression (σ.allowingIn h) (plain.reaches _ rfl) rfl rfl) fun test => ?_
    exact parallel_caseTailRule h plain hstart (some test) _
  next hkind =>
    refine .bind (.step h (congrArg some hkind) nofun nofun rfl) fun _ => ?_
    exact parallel_caseTailRule h plain hstart none _
  next =>
    exact .closedByEnd (List.map d.id) _ _ c c' (t.kind = .endOfText) [] .closeSwitch
      (.expected .caseOrDefault) h

theorem parallel_switchRule {k : Facts} (hk : k.next = some (.keyword .switchWord)) :
    Parallel d σ d.id k (fun reach => switchRule reach c) (fun reach => switchRule reach c')
      .read := by
  unfold switchRule
  refine .position fun start start' hstart => .bind (.step h hk nofun nofun rfl) fun _ => ?_
  refine .bind (parallel_conditionRule h plain .switchCases _) fun discriminant => ?_
  refine .bind (parallel_expect h .openBrace .openSwitch _ rfl) fun _ => ?_
  refine .bind (.goal .cases h (plain.reaches _ rfl) rfl rfl) fun cases => ?_
  exact .add _ c c' start start' (.switchCases discriminant cases) h hstart (plain.adds _ rfl) rfl

/-!
## Exceptions
-/

theorem parallel_catchRule {k : Facts} (hk : k.next = some (.keyword .catchWord)) :
    Parallel d σ d.id k (fun reach => catchRule reach c) (fun reach => catchRule reach c')
      .read := by
  unfold catchRule
  refine .position fun start start' hstart => .bind (.step h hk nofun nofun rfl) fun _ => ?_
  refine .bind (parallel_expect h .openParen .openCatch _ rfl) fun _ => ?_
  refine .bind (.name _ c c' .catchParameter h) fun parameter => ?_
  refine .bind (.closing _ c c' .closeParen .closeCatch h nofun rfl) fun _ => ?_
  refine .bind (parallel_blockRule h plain _) fun body => ?_
  exact .add _ c c' start start' (.catchClause parameter body) h hstart (plain.adds _ rfl) rfl

theorem parallel_handlerRule :
    Parallel d σ (Option.map d.id) .read (fun reach => handlerRule reach c)
      (fun reach => handlerRule reach c') .read := by
  unfold handlerRule
  refine .ifKind (m := .read) h nofun nofun (.inl rfl) rfl (.refl _) (fun k' _ => ?_)
    (.pure _ _ none)
  exact .map (parallel_catchRule h plain rfl) fun _ => rfl

theorem parallel_finalizerRule :
    Parallel d σ (Option.map d.id) .read (fun reach => finalizerRule reach c)
      (fun reach => finalizerRule reach c') .read := by
  unfold finalizerRule
  refine .accept (m := .read) h nofun nofun nofun rfl (.inl rfl) rfl (.refl _) ?_ (.pure _ _ none)
  exact .map (parallel_blockRule h plain _) fun _ => rfl

theorem parallel_tryRule {k : Facts} (hk : k.next = some (.keyword .tryWord)) :
    Parallel d σ d.id k (fun reach => tryRule reach c) (fun reach => tryRule reach c') .read := by
  unfold tryRule
  refine .position fun start start' hstart => .bind (.step h hk nofun nofun rfl) fun _ => ?_
  refine .bind (parallel_blockRule h plain _) fun body => ?_
  refine .bind (parallel_handlerRule h plain) fun handler => ?_
  refine .bind (parallel_finalizerRule h plain) fun finalizer => ?_
  refine .ite (by simp only [Option.isNone_map]) (fun _ => ?_) fun _ => ?_
  · exact .fail _ _ _ c c' .handler h
  · exact .add _ c c' start start' (.tryCatch body handler finalizer) h hstart
      (plain.adds _ rfl) rfl

/-!
## All forms
-/

theorem parallel_statementRule :
    Parallel d σ d.id .start (fun reach => statementRule reach c)
      (fun reach => statementRule reach c') .ended := by
  unfold statementRule
  simp only [peekKind_bind_eq]
  refine .seek h rfl fun t t' halike k' _ => ?_
  rw [halike.kind]
  have hnext {kind : TokenKind} (hkind : t.kind = kind) : (k'.seeing t.kind).next = some kind :=
    congrArg some hkind
  split
  next => exact .loose (parallel_blockRule h plain _) Facts.read_covers_ended
  next hkind => exact parallel_emptyRule h plain (hnext hkind)
  next hkind => exact parallel_declarationRule h plain (hnext hkind)
  next hkind => exact parallel_ifRule h plain (hnext hkind)
  next hkind => exact parallel_doWhileRule h plain (hnext hkind)
  next hkind => exact parallel_whileRule h plain (hnext hkind)
  next hkind => exact parallel_forRule h plain (hnext hkind)
  next hkind =>
    exact parallel_jumpRule h .continueOn .continueWord nofun (hnext hkind) (fun _ => rfl)
      fun _ => rfl
  next hkind =>
    exact parallel_jumpRule h .breakOff .breakWord nofun (hnext hkind) (fun _ => rfl) fun _ => rfl
  next hkind => exact parallel_returnRule h plain (hnext hkind)
  next hkind => exact parallel_withRule h plain (hnext hkind)
  next hkind => exact .loose (parallel_switchRule h plain (hnext hkind)) Facts.read_covers_ended
  next hkind => exact parallel_throwRule h plain (hnext hkind)
  next hkind => exact .loose (parallel_tryRule h plain (hnext hkind)) Facts.read_covers_ended
  next hkind =>
    refine .loose (parallel_functionRule h plain true ?_ (hnext hkind)) Facts.read_covers_ended
    exact fun _ _ _ => plain.adds _ rfl
  next hkind =>
    have hlabeled (c : Context) (reach : Strategy) :
        (isLabel c >>= fun found =>
          if found then labeledRule reach c else expressionStatementRule reach c) =
        labeledOr c (fun start name => reach .branch c >>= fun body =>
          addSince c start (.labeled name body)) (expressionStatementRule reach c) := rfl
    simp only [hlabeled]
    refine .label c c' h (hnext hkind) (fun start start' name hstart => ?_) (fun k' => ?_) rfl
    · refine .bind (.goal .branch h (plain.reaches _ rfl) rfl rfl) fun body => ?_
      exact .add _ c c' start start' (.labeled name body) h hstart (plain.adds _ rfl) rfl
    · exact parallel_expressionStatementRule h plain _
  next => exact .missing c c' h (parallel_expressionStatementRule h plain _)
  next => exact parallel_expressionStatementRule h plain _

end

/-!
## All goals
-/

/-- A goal whose rule goes on in the same way at the same token, whatever its context. -/
def Goal.isParallel : Goal → Bool
  | .branch | .binary _ | .binaryTail _ _ _ => false
  | _ => true

def Goal.facts (goal : Goal) : Facts :=
  if goal.isWordy then .fresh else if goal.isOpen then .atList else .start

theorem Goal.facts_eq (goal : Goal) :
    goal.facts.moved = false ∧ goal.facts.inside = false ∧
    forall kind, goal.facts.next ≠ some kind := by
  unfold Goal.facts
  split
  next => exact ⟨rfl, rfl, nofun⟩
  next =>
    split
    next => exact ⟨rfl, rfl, nofun⟩
    next => exact ⟨rfl, rfl, nofun⟩

theorem parallel_applyRule (h : σ.link c c') (full : σ.Full) (goal : Goal) (start' : Nat)
    (hgoal : goal.isParallel = true) (hstart : goal.isTail = true -> σ.starts goal.start start') :
    Parallel d σ (goal.placedResult d start') goal.facts (fun reach => applyRule reach goal c)
      (fun reach => applyRule reach (goal.placed d start') c') (Facts.start.after goal false) := by
  have plain := full.plain
  cases goal with
  | branch => cases hgoal
  | binary => cases hgoal
  | binaryTail => cases hgoal
  | statements listEnd => exact parallel_statementsRule h plain listEnd
  | statement =>
      have hnested : Parallel d σ d.id .start (fun reach => nested c (statementRule reach))
          (fun reach => nested c' (statementRule reach)) .ended :=
        .nested c c' h (parallel_statementRule (σ.deeper h) plain)
      exact hnested
  | «variables» => exact parallel_variablesRule h plain
  | cases => exact parallel_casesRule h plain
  | parameters => exact parallel_parametersRule h plain
  | expression => exact parallel_expressionRule h full
  | sequenceTail => exact parallel_sequenceTailRule h plain
  | assignment => exact parallel_assignmentRule h full
  | unary =>
      have hnested : Parallel d σ d.id .start (fun reach => nested c (unaryRule reach))
          (fun reach => nested c' (unaryRule reach)) .read :=
        .nested c c' h (parallel_unaryRule (σ.deeper h) full)
      exact hnested
  | member calls => exact parallel_memberRule h full calls
  | memberTail calls start front => exact parallel_memberTailRule h full calls (hstart rfl) front
  | arguments => exact parallel_argumentsRule h plain
  | elements => exact parallel_elementsRule h plain
  | properties => exact parallel_propertiesRule h full

end Grammar
end ScriptHints
