import ScriptHints.Proofs.Parallel.Standalone

/-!
# The expressions of the grammar stand alone

Rule by rule, what a strict reading adds to the tree stands alone.
-/

namespace ScriptHints
namespace Grammar

open Syntax Token

section

variable {whole : TokenStream} (ended : whole.Ended) {budget : Nat}
  (halone : (grammar budget).ReadsStandalone whole) {c : Context} (hc : c.Strict whole) {s : State}
  (hbound : s.position ≤ whole.size)

theorem ReadsStandalone.accept {α : Type} {pending : α → List NodeId} (hc : c.Strict whole)
    (hbound : s.position ≤ whole.size) (kind : TokenKind)
    {f : Bool → Reader α}
    (htrue : forall s₁, s₁.position ≤ whole.size -> ReadsStandalone whole pending s₁ (f true s₁))
    (hfalse : ReadsStandalone whole pending s (f false s)) :
    ReadsStandalone whole pending s ((Grammar.accept c kind >>= f) s) := by
  rw [bind_accept]
  split
  next =>
    rw [← bind_advance c fun _ => f true]
    exact (ReadsStandalone.advance hc.stream hbound).bind fun _ s₁ _ hbound₁ => htrue s₁ hbound₁
  next => exact hfalse

include halone hc hbound

theorem Strategy.ReadsStandalone.goal (goal : Goal) (hinner : goal.isInner = false) :
    ReadsStandaloneAll whole s (grammar budget goal c s) :=
  halone.goals goal c s hc hbound (Goal.isTail_of_isInner hinner) fun h => by
    rw [hinner] at h
    cases h

/-!
## Sequences, assignments and conditionals
-/

theorem readsStandalone_expressionRule :
    ReadsStandaloneRest whole s (expressionRule (grammar budget) c s) := by
  unfold expressionRule
  rw [bind_position]
  refine (halone.goal hc hbound .assignment rfl).bind fun first s₁ _ hbound₁ => ?_
  refine (halone.goal hc hbound₁ .sequenceTail rfl).bind fun more s₂ _ hbound₂ => ?_
  cases more with
  | nil => exact .ok hbound₂
  | cons next more => exact .addSince c _ _ hbound₂

theorem readsStandalone_conditionalRule :
    ReadsStandaloneRest whole s (conditionalRule (grammar budget) c s) := by
  unfold conditionalRule
  rw [bind_position]
  refine (halone.goal hc hbound (.binary 0) rfl).bind fun test s₁ _ hbound₁ => ?_
  refine .accept hc hbound₁ _ (fun s₂ hbound₂ => ?_) (.ok hbound₁)
  refine (halone.goal hc.allowingIn hbound₂ .assignment rfl).bind fun consequent s₃ _ hbound₃ => ?_
  refine (ReadsStandalone.expect hc.stream hbound₃ _ _).bind fun _ s₄ _ hbound₄ => ?_
  refine (halone.goal hc hbound₄ .assignment rfl).bind fun alternative s₅ _ hbound₅ => ?_
  exact .addSince c _ _ hbound₅

include ended in
omit halone in
theorem standsAlone_conditionalRule {id : NodeId} {s₁ : State}
    (hread : conditionalRule (grammar budget) c s = .ok id s₁) : StandsAlone whole s₁.tree id := by
  have hheld : Facts.start.Holds s.offset whole s.position s :=
    .here (Nat.le_refl _) hbound (Nat.le_refl _) rfl (by intro h; cases h)
      (by intro kind h; cases h)
  have hlink : (Scope.strict whole).link c c := hc
  have hkeeps := ((parallel_conditionalRule hlink (Scope.full_strict whole)).keeps ended
    (fun _ _ h => h) (fun _ _ => ⟨0, trivial⟩)
    (keepsFacts_grammar s.offset ended budget) s.position s hheld
    id s₁ hread).2.1
  refine .of_reads (hkeeps.moved rfl) hkeeps.bounded fun part c₁ hpart hc₁ => ?_
  rcases Parallel.rereads ended hc hpart (Nat.le_refl _) hc₁ (Nat.zero_le _)
    (fun hlt => absurd hlt (Nat.lt_irrefl _)) (keeping_start s part whole) hpart.size.symm
    (fun link => parallel_conditionalRule link (Scope.full_narrows _ _ part whole _)) rfl
    hheld hread with
    ⟨a, s₂, ha, hid, hs₂⟩
  refine ⟨a, s₂, ?_, hid, hs₂⟩
  exact expression_of_conditionalRule (tied_fullGrammar hpart.ended) hc₁.stream (Nat.zero_le _)
    (Nat.le_of_eq (hs₂.atEnd hpart)) (hpart.next_eq_end hc₁.stream hs₂) ha

include ended in
theorem readsStandalone_assignmentRule :
    ReadsStandaloneRest whole s (assignmentRule (grammar budget) c s) := by
  unfold assignmentRule
  rw [bind_position]
  refine ((readsStandalone_conditionalRule halone hc hbound).resolve fun id s₁ hread =>
    standsAlone_conditionalRule ended hc hbound hread).bind fun target s₁ _ hbound₁ => ?_
  rw [bind_peekKind]
  cases AssignmentOperator.ofKind? (c.next s₁).kind with
  | none => exact .ok hbound₁
  | some operator =>
      refine (ReadsStandalone.advance hc.stream hbound₁).bind fun _ s₂ _ hbound₂ => ?_
      refine (halone.goal hc hbound₂ .assignment rfl).bind fun value s₃ _ hbound₃ => ?_
      exact .addSince c _ _ hbound₃

/-!
## Literals and other operands
-/

omit halone in
theorem readsStandalone_propertyName : ReadsStandaloneRest whole s (propertyName c s) := by
  unfold propertyName
  rw [bind_position, bind_peek]
  have hname : ReadsStandaloneRest whole s
      ((advance c >>= fun _ => addSince c s.position (.identifier (c.next s).lexeme)) s) :=
    (ReadsStandalone.advance hc.stream hbound).bind fun _ s₁ _ hbound₁ => .addSince c _ _ hbound₁
  cases (c.next s).kind with
  | identifier | keyword | boolean => exact hname
  | _ => exact .error

omit halone in
theorem readsStandalone_propertyKey : ReadsStandaloneRest whole s (propertyKey c s) := by
  unfold propertyKey
  rw [bind_position, bind_peek]
  cases keyLiteral? (c.next s) with
  | none => exact readsStandalone_propertyName hc hbound
  | some literal =>
      exact (ReadsStandalone.advance hc.stream hbound).bind fun _ s₁ _ hbound₁ =>
        .addSince c _ _ hbound₁

theorem readsStandalone_propertyRule :
    ReadsStandaloneAll whole s (propertyRule (grammar budget) c s) := by
  unfold propertyRule
  rw [bind_position]
  refine (readsStandalone_propertyKey hc hbound).bindNamed (fun key s₁ _ hbound₁ => ?_) ?_
  · refine (ReadsStandalone.expect hc.stream hbound₁ _ _).bind fun _ s₂ _ hbound₂ => ?_
    refine (halone.goal hc.allowingIn hbound₂ .assignment rfl).bind fun value s₃ _ hbound₃ => ?_
    exact .addPlain c _ rfl hbound₃
  · intro key s₁ id s₂ _ hread name hname
    rcases bind_ok_iff.mp hread with ⟨_, s₃, _, hread⟩
    rcases bind_ok_iff.mp hread with ⟨value, s₄, _, hadd⟩
    rw [addSince_eq] at hadd
    cases hadd
    rw [List.mem_singleton.mp hname]
    refine ⟨s₄.tree.nextId, ?_⟩
    show exists entry, (s₄.tree.add _ _).get? s₄.tree.nextId = some entry ∧ _
    rw [SyntaxTree.get?_add, if_pos rfl]
    exact ⟨_, rfl, rfl⟩

theorem readsStandalone_propertiesRule :
    ReadsStandaloneAll whole s (propertiesRule (grammar budget) c s) := by
  unfold propertiesRule
  refine .accept hc hbound _ (fun s₁ hbound₁ => .ok hbound₁) ?_
  refine (readsStandalone_propertyRule halone hc hbound).bind fun property s₁ _ hbound₁ => ?_
  refine .accept hc hbound₁ _ (fun s₂ hbound₂ => ?_) ?_
  · exact (halone.goal hc hbound₂ .properties rfl).bind fun more s₃ _ hbound₃ => .ok hbound₃
  · exact (ReadsStandalone.closing hc hbound₁ _ _).bind fun _ s₂ _ hbound₂ => .ok hbound₂

theorem readsStandalone_parenthesizedRule :
    ReadsStandaloneRest whole s (parenthesizedRule (grammar budget) c s) := by
  unfold parenthesizedRule
  rw [bind_position]
  refine (ReadsStandalone.advance hc.stream hbound).bind fun _ s₁ _ hbound₁ => ?_
  refine (halone.goal hc.allowingIn hbound₁ .expression rfl).bind fun expression s₂ _ hbound₂ => ?_
  refine (ReadsStandalone.closing hc hbound₂ _ _).bind fun _ s₃ _ hbound₃ => ?_
  exact .addSince c _ _ hbound₃

theorem readsStandalone_arrayRule :
    ReadsStandaloneRest whole s (arrayRule (grammar budget) c s) := by
  unfold arrayRule
  rw [bind_position]
  refine (ReadsStandalone.advance hc.stream hbound).bind fun _ s₁ _ hbound₁ => ?_
  refine (halone.goal hc hbound₁ .elements rfl).bind fun elements s₂ _ hbound₂ => ?_
  exact .addSince c _ _ hbound₂

theorem readsStandalone_objectRule :
    ReadsStandaloneRest whole s (objectRule (grammar budget) c s) := by
  unfold objectRule
  rw [bind_position]
  refine (ReadsStandalone.advance hc.stream hbound).bind fun _ s₁ _ hbound₁ => ?_
  refine (halone.goal hc hbound₁ .properties rfl).bind fun properties s₂ _ hbound₂ => ?_
  exact .addSince c _ _ hbound₂

omit hc in
include ended in
theorem readsStandalone_plain {α : Type} {u : α → α} {l : Facts} {x : Attempt α}
    (h : Parallel ⟨0, 0⟩ (Scope.plain whole) u .start x x l) :
    ReadsStandaloneAll whole s (x (grammar budget) s) :=
  h.readsStandalone ended (keepsFacts_grammar _ ended budget) halone s.position s
    (.here (Nat.zero_le _) hbound (Nat.zero_le _) rfl (by intro h; cases h)
      (by intro kind h; cases h))

omit halone in
include ended in
theorem readsStandalone_functionName (declaration : Bool) :
    ReadsStandaloneAll whole s (functionName c declaration s) := by
  unfold functionName
  rw [bind_peekKind]
  split
  next =>
    exact (ReadsStandalone.newName ended hc hbound _).bind fun name s₁ _ hbound₁ => .ok hbound₁
  next =>
    split
    next => exact .error
    next => exact .ok hbound

include ended in
theorem readsStandalone_functionRule (declaration : Bool) :
    ReadsStandaloneRest whole s (functionRule (grammar budget) declaration c s) := by
  have hlink : (Scope.plain whole).link c c := hc
  unfold functionRule
  rw [bind_position]
  refine (ReadsStandalone.advance hc.stream hbound).bind fun _ s₁ _ hbound₁ => ?_
  refine (readsStandalone_functionName ended hc hbound₁ declaration).bind
    fun name s₂ _ hbound₂ => ?_
  refine (ReadsStandalone.expect hc.stream hbound₂ _ _).bind fun _ s₃ _ hbound₃ => ?_
  have hbody (params : List NodeId) (s₄ : State) (hbound₄ : s₄.position ≤ whole.size) :
      ReadsStandaloneRest whole s₄ ((blockRule (grammar budget) c >>= fun body =>
        addSince c s.position (.function name params body declaration)) s₄) := by
    have hblock := readsStandalone_plain ended halone hbound₄
      (parallel_blockRule (d := ⟨0, 0⟩) hlink (Scope.plain_plain whole) .start)
    exact hblock.bind fun body s₅ _ hbound₅ => .addSince c _ _ hbound₅
  refine .accept hc hbound₃ _ (fun s₄ hbound₄ => ?_) ?_
  · rw [if_pos rfl, pure_bind]
    exact hbody [] s₄ hbound₄
  · rw [if_neg Bool.noConfusion]
    exact (halone.goal hc hbound₃ .parameters rfl).bind fun params s₄ _ hbound₄ =>
      hbody params s₄ hbound₄

include ended in
theorem readsStandalone_operandRule :
    ReadsStandaloneRest whole s (operandRule (grammar budget) c s) := by
  unfold operandRule
  rw [bind_position, bind_peek]
  cases operand? (c.next s) with
  | some node =>
      exact (ReadsStandalone.advance hc.stream hbound).bind fun _ s₁ _ hbound₁ =>
        .addSince c _ _ hbound₁
  | none =>
      cases (c.next s).kind with
      | keyword word =>
          cases word with
          | functionWord => exact readsStandalone_functionRule ended halone hc hbound false
          | _ => exact .error
      | punctuator mark =>
          cases mark with
          | openParen => exact readsStandalone_parenthesizedRule halone hc hbound
          | openBracket => exact readsStandalone_arrayRule halone hc hbound
          | openBrace => exact readsStandalone_objectRule halone hc hbound
          | _ => exact .error
      | _ => exact .error

/-!
## Accesses, calls and constructions
-/

include ended in
theorem readsStandalone_argumentListRule :
    ReadsStandaloneAll whole s (argumentListRule (grammar budget) c s) := by
  have hlink : (Scope.plain whole).link c c := hc
  exact readsStandalone_plain ended halone hbound
    (parallel_argumentListRule (d := ⟨0, 0⟩) hlink (Scope.plain_plain whole) .start)

include ended in
theorem readsStandalone_constructionRule :
    ReadsStandaloneRest whole s (constructionRule (grammar budget) c s) := by
  unfold constructionRule
  rw [bind_position]
  refine (ReadsStandalone.advance hc.stream hbound).bind fun _ s₁ _ hbound₁ => ?_
  have htarget : ReadsStandaloneAll whole s₁ (nested c (grammar budget (.member false)) s₁) := by
    rw [nested_eq]
    split
    next => exact .error
    next =>
      exact halone.goals (.member false) c.deeper s₁ hc.deeper hbound₁ rfl fun _ => Nat.succ_pos _
  refine htarget.bind fun target s₂ _ hbound₂ => ?_
  rw [bind_peekKind]
  split
  next =>
    exact ((readsStandalone_argumentListRule ended halone hc hbound₂).map some).bind
      fun arguments s₃ _ hbound₃ => .addSince c _ _ hbound₃
  next => exact .addSince c _ _ hbound₂

include ended in
theorem readsStandalone_frontRule :
    ReadsStandaloneRest whole s (frontRule (grammar budget) c s) := by
  unfold frontRule
  rw [bind_peekKind]
  split
  next => exact readsStandalone_constructionRule ended halone hc hbound
  next => exact readsStandalone_operandRule ended halone hc hbound

include ended in
/-- An iteration leaves the node pending that the loop goes on with. -/
theorem Iteration.readsStandalone (iteration : Iteration) (start : Nat) (left : NodeId) :
    ReadsStandaloneRest whole s (iteration.read (grammar budget) start left c s) := by
  cases iteration with
  | operation operator =>
      refine (ReadsStandalone.advance hc.stream hbound).bind fun _ s₁ _ hbound₁ => ?_
      refine (halone.goal hc hbound₁ (.binary operator.precedence) rfl).bind
        fun right s₂ _ hbound₂ => ?_
      exact .addSince c _ _ hbound₂
  | name =>
      refine (ReadsStandalone.advance hc.stream hbound).bind fun _ s₁ _ hbound₁ => ?_
      refine (readsStandalone_propertyName hc hbound₁).bindNamed
        (fun name s₂ _ hbound₂ => .addSince c _ _ hbound₂) ?_
      intro name s₂ id s₃ _ hadd other hother
      rw [addSince_eq] at hadd
      cases hadd
      rw [List.mem_singleton.mp hother]
      refine ⟨s₂.tree.nextId, ?_⟩
      show exists entry, (s₂.tree.add _ _).get? s₂.tree.nextId = some entry ∧ _
      rw [SyntaxTree.get?_add, if_pos rfl]
      exact ⟨_, rfl, rfl⟩
  | element =>
      refine (ReadsStandalone.advance hc.stream hbound).bind fun _ s₁ _ hbound₁ => ?_
      refine (halone.goal hc.allowingIn hbound₁ .expression rfl).bind fun element s₂ _ hbound₂ => ?_
      refine (ReadsStandalone.closing hc hbound₂ _ _).bind fun _ s₃ _ hbound₃ => ?_
      exact .addSince c _ _ hbound₃
  | arguments =>
      refine (readsStandalone_argumentListRule ended halone hc hbound).bind
        fun arguments s₁ _ hbound₁ => ?_
      exact .addSince c _ _ hbound₁

/-!
## Loops
-/

include ended in
theorem readsStandalone_front (loop : Loop) (hdepth : loop.depth ≤ c.depth) :
    ReadsStandaloneAll whole s (loop.front (grammar budget) c s) := by
  cases loop with
  | operations floor => exact halone.goal hc hbound .unary rfl
  | accesses calls =>
      refine (readsStandalone_frontRule ended halone hc hbound).resolve fun id s₁ hread => ?_
      have hkeeps :=
        (keeps_frontRule ended hc (d := s.offset) (Nat.le_refl _) hbound (Nat.le_refl _) id s₁
        hread).2.1
      exact (Loop.goesOn_front ended hc (.accesses calls) hdepth hbound hread).standsAlone
        (hkeeps.moved rfl) hkeeps.bounded

include ended in
theorem readsStandalone_whole (loop : Loop) (hdepth : loop.depth ≤ c.depth) :
    ReadsStandaloneAll whole s (loop.whole (applyRule (grammar budget)) c s) := by
  rw [Loop.whole_applyRule, bind_position]
  refine (readsStandalone_front ended halone hc hbound loop hdepth).bind
    fun left s₁ hread hbound₁ => ?_
  refine halone.loops loop c s s₁ left hc hdepth ?_ hbound₁
    (Loop.goesOn_front ended hc loop hdepth hbound hread)
  cases loop with
  | operations floor =>
      exact (position_of_goal ended hc .unary rfl hbound hread).1
  | accesses calls =>
      exact (keeps_frontRule ended hc (d := s.offset) (Nat.le_refl _) hbound (Nat.le_refl _) left s₁
        hread).2.1.moved rfl

include ended in
/-- The node of every iteration stands alone, because the loop has gone on as far as there. -/
theorem readsStandalone_rest (loop : Loop) (hdepth : loop.depth ≤ c.depth) {s₀ : State}
    {left : NodeId}
    (hmoved : s₀.position < s.position) (hgoes : loop.GoesOn whole c s₀ s left) :
    ReadsStandaloneAll whole s (loop.rest (applyRule (grammar budget)) s₀.position left c s) := by
  rw [Loop.rest_applyRule]
  cases hiteration : loop.iteration? c (c.next s).kind with
  | none => exact .ok hbound
  | some iteration =>
      have hgoes₁ (joined : NodeId) (s₁ : State)
          (hread : iteration.read (grammar budget) s₀.position left c s = .ok joined s₁) :
          loop.GoesOn whole c s₀ s₁ joined ∧ s₀.position < s₁.position ∧
            s₁.position ≤ whole.size := by
        have hkeeps := Iteration.keeps ended hc budget (Loop.kind_of_iteration? hiteration)
          (d := ⟨0, 0⟩)
          (Nat.zero_le _) hbound (Nat.zero_le _) s₀.position left
        rw [Offset.id_zero] at hkeeps
        rcases hkeeps joined s₁ hread with ⟨_, hheld, _⟩
        exact ⟨hgoes.iteration ended hc hdepth hbound hiteration hread,
          Nat.lt_trans hmoved (hheld.moved rfl), hheld.bounded⟩
      refine ((Iteration.readsStandalone ended halone hc hbound iteration s₀.position left).resolve
        fun joined s₁ hread => ?_).bind fun joined s₁ hread hbound₁ => ?_
      · rcases hgoes₁ joined s₁ hread with ⟨hgoes', hmoved', hbound'⟩
        exact hgoes'.standsAlone hmoved' hbound'
      · rcases hgoes₁ joined s₁ hread with ⟨hgoes', hmoved', _⟩
        exact halone.loops loop c s₀ s₁ joined hc hdepth hmoved' hbound₁ hgoes'

/-!
## Unary operators and updates
-/

theorem readsStandalone_updateRule (hdepth : 0 < c.depth) :
    ReadsStandaloneRest whole s (updateRule (grammar budget) c s) := by
  unfold updateRule
  rw [bind_position]
  refine (halone.goals (.member true) c s hc hbound rfl fun _ => hdepth).bind
    fun operand s₁ _ hbound₁ => ?_
  rw [bind_peek]
  cases UpdateOperator.ofKind? (c.next s₁).kind with
  | none => exact .ok hbound₁
  | some operator =>
      dsimp only
      split
      next => exact .ok hbound₁
      next =>
        exact (ReadsStandalone.advance hc.stream hbound₁).bind fun _ s₂ _ hbound₂ =>
          .addSince c _ _ hbound₂

theorem readsStandalone_unaryRule (hdepth : 0 < c.depth) :
    ReadsStandaloneRest whole s (unaryRule (grammar budget) c s) := by
  unfold unaryRule
  rw [bind_position, bind_peekKind]
  cases UnaryOperator.ofKind? (c.next s).kind with
  | some operator =>
      refine (ReadsStandalone.advance hc.stream hbound).bind fun _ s₁ _ hbound₁ => ?_
      refine (halone.goal hc hbound₁ .unary rfl).bind fun operand s₂ _ hbound₂ => ?_
      exact .addSince c _ _ hbound₂
  | none =>
      cases UpdateOperator.ofKind? (c.next s).kind with
      | some operator =>
          refine (ReadsStandalone.advance hc.stream hbound).bind fun _ s₁ _ hbound₁ => ?_
          refine (halone.goal hc hbound₁ .unary rfl).bind fun operand s₂ _ hbound₂ => ?_
          exact .addSince c _ _ hbound₂
      | none => exact readsStandalone_updateRule halone hc hbound hdepth

/-!
## The grammar as a whole
-/

omit hc in
include ended in
theorem readsStandalone_parallel (goal : Goal) {l : Facts}
    (h : Parallel ⟨0, 0⟩ (Scope.plain whole) (goal.placedResult ⟨0, 0⟩ 0) goal.facts
      (fun reach => applyRule reach goal c)
      (fun reach => applyRule reach (goal.placed ⟨0, 0⟩ 0) c) l) :
    ReadsStandaloneAll whole s (applyRule (grammar budget) (goal.placed ⟨0, 0⟩ 0) c s) :=
  h.readsStandalone ended (keepsFacts_grammar _ ended budget) halone s.position s
    (.goal goal (Nat.zero_le _) hbound (Nat.zero_le _))

end

theorem readsStandalone_grammar {whole : TokenStream} (ended : whole.Ended) (budget : Nat) :
    (grammar budget).ReadsStandalone whole := by
  induction budget with
  | zero =>
      constructor
      · intro goal c s _ _ _ _
        exact .error
      · intro loop c s₀ s left _ _ _ _ _
        cases loop with
        | operations floor => exact .error
        | accesses calls => exact .error
  | succ budget ih =>
      constructor
      · intro goal c s hc hbound htail hdepth
        have hlink : (Scope.plain whole).link c c := hc
        have plain := Scope.plain_plain whole
        show ReadsStandaloneAll whole s (applyRule (grammar budget) goal c s)
        cases goal with
        | binaryTail floor start left => cases htail
        | memberTail calls start front => cases htail
        | expression =>
            exact (readsStandalone_expressionRule ih hc hbound).resolve fun id s₁ hread =>
              standsAlone_expression ended hc hbound (budget + 1) hread
        | assignment =>
            exact (readsStandalone_assignmentRule ended ih hc hbound).resolve fun id s₁ hread =>
              standsAlone_assignment ended hc hbound (budget + 1) hread
        | binary floor =>
            exact readsStandalone_whole ended ih hc hbound (.operations floor) (Nat.zero_le _)
        | unary =>
            have hrest : ReadsStandaloneRest whole s (nested c (unaryRule (grammar budget)) s) := by
              rw [nested_eq]
              split
              next => exact .error
              next => exact readsStandalone_unaryRule ih hc.deeper hbound (Nat.succ_pos _)
            exact hrest.resolve fun id s₁ hread =>
              standsAlone_unary ended hc hbound (budget + 1) hread
        | member calls =>
            exact readsStandalone_whole ended ih hc hbound (.accesses calls) (hdepth rfl)
        | properties => exact readsStandalone_propertiesRule ih hc hbound
        | branch =>
            show ReadsStandaloneAll whole s (branchRule (grammar budget) c s)
            rw [branchRule_eq_statement hc.recover]
            exact ih.goal hc hbound .statement rfl
        | statements listEnd =>
            exact readsStandalone_parallel ended ih hbound (.statements listEnd)
              (parallel_statementsRule hlink plain listEnd)
        | statement =>
            have hnested : Parallel ⟨0, 0⟩ (Scope.plain whole) (Offset.mk 0 0).id .start
                (fun reach => nested c (statementRule reach))
                (fun reach => nested c (statementRule reach)) .ended :=
              .nested c c hlink (parallel_statementRule (Scope.deeper _ hlink) plain)
            exact readsStandalone_parallel ended ih hbound .statement hnested
        | «variables» =>
            exact readsStandalone_parallel ended ih hbound .variables
              (parallel_variablesRule hlink plain)
        | cases =>
            exact readsStandalone_parallel ended ih hbound .cases (parallel_casesRule hlink plain)
        | parameters =>
            exact readsStandalone_parallel ended ih hbound .parameters
              (parallel_parametersRule hlink plain)
        | sequenceTail =>
            exact readsStandalone_parallel ended ih hbound .sequenceTail
              (parallel_sequenceTailRule hlink plain)
        | arguments =>
            exact readsStandalone_parallel ended ih hbound .arguments
              (parallel_argumentsRule hlink plain)
        | elements =>
            exact readsStandalone_parallel ended ih hbound .elements
              (parallel_elementsRule hlink plain)
      · intro loop c s₀ s left hc hdepth hmoved hbound hgoes
        exact readsStandalone_rest ended ih hc hbound loop hdepth hmoved hgoes

end Grammar
end ScriptHints
