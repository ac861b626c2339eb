import ScriptHints.Proofs.Reader.StatementRules
import ScriptHints.Proofs.Syntax.Growth

/-!
# Heads and bodies

A statement with a condition or with the clauses of a loop is read in two steps: its head up to the
closing parenthesis, and its body behind it.
-/

namespace ScriptHints
namespace Grammar

open Syntax Token

/-!
## Two steps
-/

inductive Headed where
  | ifElse | whileLoop | forLoop
deriving DecidableEq

namespace Headed

def word : Headed → Keyword
  | .ifElse => .ifWord
  | .whileLoop => .whileWord
  | .forLoop => .forWord

def opening : Headed → Expectation
  | .ifElse => .openHeader .ifElse
  | .whileLoop => .openHeader .whileLoop
  | .forLoop => .openFor

def closing : Headed → Expectation
  | .ifElse => .closeHeader .ifElse
  | .whileLoop => .closeHeader .whileLoop
  | .forLoop => .closeFor

end Headed

inductive Head where
  | ifElse (condition : NodeId)
  | whileLoop (condition : NodeId)
  | forLoop (initializer condition step : Option NodeId)

namespace Head

def ids : Head → List NodeId
  | .ifElse condition => [condition]
  | .whileLoop condition => [condition]
  | .forLoop initializer condition step =>
      initializer.toList ++ condition.toList ++ step.toList

def map (f : NodeId → NodeId) : Head → Head
  | .ifElse condition => .ifElse (f condition)
  | .whileLoop condition => .whileLoop (f condition)
  | .forLoop initializer condition step =>
      .forLoop (initializer.map f) (condition.map f) (step.map f)

def part : Head → Option NodeId
  | .ifElse condition => some condition
  | .whileLoop condition => some condition
  | .forLoop initializer _ _ => initializer

theorem part_map (f : NodeId → NodeId) (head : Head) : (head.map f).part = head.part.map f := by
  cases head <;> rfl

theorem mem_ids_of_part {head : Head} {id : NodeId} (h : head.part = some id) : id ∈ head.ids := by
  cases head with
  | ifElse condition | whileLoop condition =>
      cases h
      exact List.mem_singleton_self _
  | forLoop initializer condition step =>
      cases h
      simp [ids]

end Head

section

variable [Machine]

def middleRule (reach : Strategy) (c : Context) : Reader (Option NodeId) := do
  expect c .semicolon .endOfForInitializer
  let condition ← clauseRule reach .semicolon c
  expect c .semicolon .endOfForCondition
  return condition

def clausesRule (reach : Strategy) (c : Context) : Reader (Option NodeId × Option NodeId) := do
  let initializer ← forInitializerRule reach c
  let condition ← middleRule reach c
  return (initializer, condition)

def innerRule (reach : Strategy) (headed : Headed) (c : Context) : Reader Head := do
  advance c
  expect c .openParen headed.opening
  match headed with
  | .ifElse => .ifElse <$> reach .expression c.allowingIn
  | .whileLoop => .whileLoop <$> reach .expression c.allowingIn
  | .forLoop => do
      let clauses ← clausesRule reach c
      .forLoop clauses.1 clauses.2 <$> clauseRule reach .closeParen c

def headRule (reach : Strategy) (headed : Headed) (c : Context) : Reader Head := do
  let head ← innerRule reach headed c
  expectClosing c .closeParen headed.closing
  return head

/-- The body behind a head, for a statement that began at the position `start`. -/
def bodyRule (reach : Strategy) (start : Nat) (c : Context) : Head → Reader NodeId
  | .ifElse condition => do
      let thenBranch ← reach .branch c
      let hasElse ← accept c (.keyword .elseWord)
      let elseBranch ← if hasElse then some <$> reach .branch c else pure none
      addSince c start (.ifElse condition thenBranch elseBranch)
  | .whileLoop condition => do
      let body ← reach .branch c
      addSince c start (.whileLoop condition body)
  | .forLoop initializer condition step => do
      let body ← reach .branch c
      addSince c start (.forLoop initializer condition step body)

end

section

variable (reach : Strategy) (c : Context)

theorem forTailRule_eq (start : Nat) (initializer : Option NodeId) :
    forTailRule reach start initializer c =
      (do
        let condition ← middleRule reach c
        let head ← Head.forLoop initializer condition <$> clauseRule reach .closeParen c
        expectClosing c .closeParen .closeFor
        bodyRule reach start c head) := by
  unfold forTailRule middleRule
  simp only [bind_assoc, pure_bind, bind_map_left, bodyRule]

theorem ifRule_eq (s : State) :
    ifRule reach c s = (headRule reach .ifElse c >>= bodyRule reach s.position c) s := by
  unfold ifRule conditionRule headRule innerRule
  simp only [bind_assoc, pure_bind, bind_map_left, bodyRule]
  rfl

theorem whileRule_eq (s : State) :
    whileRule reach c s = (headRule reach .whileLoop c >>= bodyRule reach s.position c) s := by
  unfold whileRule conditionRule headRule innerRule
  simp only [bind_assoc, pure_bind, bind_map_left, bodyRule]
  rfl

theorem forHeadRule_eq :
    headRule reach .forLoop c =
      (do
        advance c
        expect c .openParen .openFor
        let initializer ← forInitializerRule reach c
        let condition ← middleRule reach c
        let head ← Head.forLoop initializer condition <$> clauseRule reach .closeParen c
        expectClosing c .closeParen .closeFor
        return head) := by
  unfold headRule innerRule clausesRule
  simp only [bind_assoc, pure_bind, bind_map_left]
  rfl

variable {reach c}

/-- The second clause begins with a semicolon, and hence not with `in`. -/
theorem middleRule_ne_ok {s s₁ : State} {condition : Option NodeId}
    (hin : (c.next s).kind = .keyword .inWord) : middleRule reach c s ≠ .ok condition s₁ := by
  intro h
  unfold middleRule at h
  rcases bind_ok_iff.mp h with ⟨_, _, hexpect, _⟩
  have hkind := (kind_of_expect_ok hexpect).1
  rw [hin] at hkind
  cases hkind

theorem forRule_eq_or (reach : Strategy) (c : Context) (s : State) :
    forRule reach c s = (headRule reach .forLoop c >>= bodyRule reach s.position c) s ∨
      (forall head s₁, headRule reach .forLoop c s ≠ .ok head s₁) ∧
        exists iterator s₁, forRule reach c s = forInTailRule reach s.position iterator c s₁ := by
  rw [forHeadRule_eq]
  unfold forRule
  simp only [bind_assoc, pure_bind]
  rw [bind_position, bind_advance, bind_advance, bind_advance]
  cases hopen : expect c .openParen .openFor (s.moved c) with
  | error e s₁ => exact .inl ((bind_of_error hopen).trans (bind_of_error hopen).symm)
  | ok _ s₁ =>
      rw [bind_of_ok hopen, bind_of_ok hopen, bind_of_ok hopen]
      cases hfirst : forInitializerRule reach c s₁ with
      | error e s₂ => exact .inl ((bind_of_error hfirst).trans (bind_of_error hfirst).symm)
      | ok initializer s₂ =>
          rw [bind_of_ok hfirst, bind_of_ok hfirst, bind_of_ok hfirst]
          cases initializer with
          | none => exact .inl (congrFun (forTailRule_eq reach c s.position none) s₂)
          | some initializer =>
              dsimp only
              rw [bind_accept]
              split
              next hin =>
                refine .inr ⟨?_, initializer, _, rfl⟩
                intro head s₃ h
                rcases bind_ok_iff.mp h with ⟨_, _, hmiddle, _⟩
                exact middleRule_ne_ok hin hmiddle
              next =>
                exact .inl (congrFun (forTailRule_eq reach c s.position (some initializer)) s₂)

theorem statementRule_of_head {s s₁ : State} {headed : Headed} {head : Head}
    (hword : (c.next s).kind = .keyword headed.word)
    (hhead : headRule reach headed c s = .ok head s₁) :
    statementRule reach c s = bodyRule reach s.position c head s₁ := by
  unfold statementRule
  rw [bind_peekKind, hword]
  cases headed with
  | ifElse => exact (ifRule_eq reach c s).trans (bind_of_ok hhead)
  | whileLoop => exact (whileRule_eq reach c s).trans (bind_of_ok hhead)
  | forLoop =>
      rcases forRule_eq_or reach c s with hsteps | ⟨hfails, _⟩
      · exact hsteps.trans (bind_of_ok hhead)
      · exact absurd hhead (hfails head s₁)

end

/-!
## Nodes of statements
-/

end Grammar

namespace Syntax

def Node.isHeaded : Node → Bool
  | .ifElse _ _ _ | .whileLoop _ _ | .forLoop _ _ _ _ => true
  | _ => false

end Syntax

namespace Grammar

open Syntax Token

def EndsWith (post : Node → Prop) (x : Reader NodeId) : Prop :=
  forall s id s', x s = .ok id s' -> exists node, s'.tree.node id = .ok node ∧ post node

namespace EndsWith

variable {post : Node → Prop} {c : Context}

theorem add {start : Nat} {node : Node} (h : post node) :
    EndsWith post (addSince c start node) := by
  intro s id s' heq
  rw [addSince_eq] at heq
  cases heq
  exact ⟨node, s.tree.node_add_nextId node _, h⟩

theorem bind {x : Reader α} {f : α → Reader NodeId} (h : forall a, EndsWith post (f a)) :
    EndsWith post (x >>= f) := by
  intro s id s' heq
  rcases bind_ok_iff.mp heq with ⟨a, s₁, _, hf⟩
  exact h a s₁ id s' hf

theorem fail (fault : SyntaxFault) : EndsWith post (Grammar.fail c fault) := by
  intro s id s' heq
  exact absurd heq fail_ne_ok

theorem mono {post' : Node → Prop} {x : Reader NodeId} (h : EndsWith post x)
    (hpost : forall node, post node -> post' node) : EndsWith post' x := by
  intro s id s' heq
  rcases h s id s' heq with ⟨node, hnode, hholds⟩
  exact ⟨node, hnode, hpost node hholds⟩

theorem ite {p : Prop} [Decidable p] {x y : Reader NodeId} (hthen : EndsWith post x)
    (helse : EndsWith post y) : EndsWith post (if p then x else y) := by
  split
  next => exact hthen
  next => exact helse

theorem look (post : TokenKind → Node → Prop) {f : TokenKind → Reader NodeId}
    (h : forall kind, EndsWith (post kind) (f kind)) {s s' : State} {id : NodeId}
    (heq : (peekKind c >>= f) s = .ok id s') :
    exists node, s'.tree.node id = .ok node ∧ post (c.next s).kind node := by
  rw [bind_peekKind] at heq
  exact h _ s id s' heq

end EndsWith

section

variable (reach : Strategy) (c : Context)

/-- What is read by a rule for another form of a statement has another node. -/
abbrev Headless (x : Reader NodeId) : Prop :=
  EndsWith (fun node => node.isHeaded = false) x

theorem headless_blockRule : Headless (blockRule reach c) :=
  .bind fun _ => .bind fun _ => .bind fun _ => .bind fun _ => .add rfl

theorem headless_declarationRule (statement : Bool) :
    Headless (declarationRule reach statement c) := by
  refine .bind fun _ => .bind fun _ => .bind fun _ => ?_
  cases statement with
  | false => exact .add rfl
  | true => exact .bind fun _ => .add rfl

theorem headless_emptyRule : Headless (emptyRule c) :=
  .bind fun _ => .bind fun _ => .add rfl

theorem headless_expressionStatementRule : Headless (expressionStatementRule reach c) :=
  .bind fun _ => .bind fun _ => .bind fun _ => .add rfl

theorem headless_missingStatementRule : Headless (missingStatementRule c) :=
  .bind fun _ => .bind fun _ => .bind fun _ => .add rfl

theorem headless_jumpRule {jump : Option NodeId → Node}
    (h : forall label, (jump label).isHeaded = false) : Headless (jumpRule jump c) :=
  .bind fun _ => .bind fun _ => .bind fun _ => .bind fun _ => .add (h _)

theorem headless_returnRule : Headless (returnRule reach c) :=
  .bind fun _ => .bind fun _ => .bind fun _ => .ite
    (.bind fun _ => .bind fun _ => .add rfl) (.bind fun _ => .bind fun _ => .add rfl)

theorem headless_throwRule : Headless (throwRule reach c) :=
  .bind fun _ => .bind fun _ => .bind fun _ => .ite (.fail _)
    (.bind fun _ => .bind fun _ => .add rfl)

theorem headless_doWhileRule : Headless (doWhileRule reach c) := by
  refine .bind fun _ => .bind fun _ => .bind fun _ => .bind fun found => ?_
  cases found with
  | false => exact .bind fun _ => .bind fun _ => .bind fun _ => .add rfl
  | true => exact .bind fun _ => .bind fun _ => .add rfl

theorem headless_withRule : Headless (withRule reach c) :=
  .bind fun _ => .bind fun _ => .bind fun _ => .bind fun _ => .add rfl

theorem headless_forInTailRule (start : Nat) (iterator : NodeId) :
    Headless (forInTailRule reach start iterator c) :=
  .bind fun _ => .bind fun _ => .bind fun _ => .add rfl

theorem headless_switchRule : Headless (switchRule reach c) :=
  .bind fun _ => .bind fun _ => .bind fun _ => .bind fun _ => .bind fun _ => .add rfl

theorem headless_tryRule : Headless (tryRule reach c) :=
  .bind fun _ => .bind fun _ => .bind fun _ => .bind fun _ => .bind fun _ =>
    .ite (.fail _) (.add rfl)

theorem headless_functionRule (declaration : Bool) : Headless (functionRule reach declaration c) :=
  .bind fun _ => .bind fun _ => .bind fun _ => .bind fun _ => .bind fun _ => .ite
    (.bind fun _ => .bind fun _ => .add rfl) (.bind fun _ => .bind fun _ => .add rfl)

theorem headless_labeledRule : Headless (labeledRule reach c) :=
  .bind fun _ => .bind fun _ => .bind fun _ => .bind fun _ => .add rfl

theorem endsWith_ifRule : EndsWith (fun _ => True) (ifRule reach c) :=
  .bind fun _ => .bind fun _ => .bind fun _ => .bind fun _ => .bind fun _ => .ite
    (.bind fun _ => .add trivial) (.bind fun _ => .add trivial)

theorem endsWith_whileRule : EndsWith (fun _ => True) (whileRule reach c) :=
  .bind fun _ => .bind fun _ => .bind fun _ => .bind fun _ => .add trivial

theorem endsWith_forTailRule (start : Nat) (initializer : Option NodeId) :
    EndsWith (fun _ => True) (forTailRule reach start initializer c) :=
  .bind fun _ => .bind fun _ => .bind fun _ => .bind fun _ => .bind fun _ => .bind fun _ =>
    .add trivial

theorem endsWith_forRule : EndsWith (fun _ => True) (forRule reach c) := by
  refine .bind fun start => .bind fun _ => .bind fun _ => .bind fun initializer => ?_
  cases initializer with
  | none => exact endsWith_forTailRule reach c start none
  | some initializer =>
      refine .bind fun found => .ite ?_ ?_
      · exact (headless_forInTailRule reach c start initializer).mono fun _ _ => trivial
      · exact endsWith_forTailRule reach c start (some initializer)

variable {reach c}

/-- Only a statement that begins with the word of a head ends with the node of one. -/
theorem exists_word_of_isHeaded {s s' : State} {id : NodeId}
    (h : statementRule reach c s = .ok id s') :
    exists node, s'.tree.node id = .ok node ∧ (node.isHeaded = true ->
      exists headed : Headed, (c.next s).kind = .keyword headed.word) := by
  let post (kind : TokenKind) (node : Node) : Prop :=
    node.isHeaded = true -> exists headed : Headed, kind = .keyword headed.word
  have hother (kind : TokenKind) {x : Reader NodeId} (hx : Headless x) : EndsWith (post kind) x :=
    hx.mono fun node hheadless hheaded => by rw [hheadless] at hheaded; cases hheaded
  have hword (headed : Headed) {x : Reader NodeId} (hx : EndsWith (fun _ => True) x) :
      EndsWith (post (.keyword headed.word)) x := hx.mono fun _ _ _ => ⟨headed, rfl⟩
  unfold statementRule at h
  refine EndsWith.look post (fun kind => ?_) h
  split
  next => exact hother _ (headless_blockRule reach c)
  next => exact hother _ (headless_emptyRule c)
  next => exact hother _ (headless_declarationRule reach c true)
  next => exact hword .ifElse (endsWith_ifRule reach c)
  next => exact hother _ (headless_doWhileRule reach c)
  next => exact hword .whileLoop (endsWith_whileRule reach c)
  next => exact hword .forLoop (endsWith_forRule reach c)
  next => exact hother _ (headless_jumpRule c fun _ => rfl)
  next => exact hother _ (headless_jumpRule c fun _ => rfl)
  next => exact hother _ (headless_returnRule reach c)
  next => exact hother _ (headless_withRule reach c)
  next => exact hother _ (headless_switchRule reach c)
  next => exact hother _ (headless_throwRule reach c)
  next => exact hother _ (headless_tryRule reach c)
  next => exact hother _ (headless_functionRule reach c true)
  next =>
    refine .bind fun label => .ite ?_ ?_
    · exact hother _ (headless_labeledRule reach c)
    · exact hother _ (headless_expressionStatementRule reach c)
  next =>
    refine .ite ?_ ?_
    · exact hother _ (headless_missingStatementRule c)
    · exact hother _ (headless_expressionStatementRule reach c)
  next => exact hother _ (headless_expressionStatementRule reach c)

theorem exists_head_of_statementRule {s s' : State} {id : NodeId}
    (h : statementRule reach c s = .ok id s') :
    exists node, s'.tree.node id = .ok node ∧ (node.isHeaded = true ->
      exists headed head s₁, (c.next s).kind = .keyword (Headed.word headed) ∧
        headRule reach headed c s = .ok head s₁) := by
  rcases exists_word_of_isHeaded h with ⟨node, hnode, hhead⟩
  refine ⟨node, hnode, fun hheaded => ?_⟩
  rcases hhead hheaded with ⟨headed, hword⟩
  have hsteps : (headRule reach headed c >>= bodyRule reach s.position c) s = .ok id s' := by
    unfold statementRule at h
    rw [bind_peekKind, hword] at h
    cases headed with
    | ifElse => exact (ifRule_eq reach c s).symm.trans h
    | whileLoop => exact (whileRule_eq reach c s).symm.trans h
    | forLoop =>
        have h : forRule reach c s = .ok id s' := h
        rcases forRule_eq_or reach c s with hhead | ⟨_, iterator, s₁, htail⟩
        · exact hhead.symm.trans h
        · rcases headless_forInTailRule reach c s.position iterator s₁ id s'
            (htail.symm.trans h) with
            ⟨node', hnode', hheadless⟩
          rw [hnode] at hnode'
          cases hnode'
          rw [hheadless] at hheaded
          cases hheaded
  rcases bind_ok_iff.mp hsteps with ⟨head, s₁, hhead, _⟩
  exact ⟨headed, head, s₁, hword, hhead⟩

end

/-!
## Compositions
-/

section

variable {stream : TokenStream} {limit : Nat} (c : Context) (hc : c.stream = stream)
include hc

theorem composed_middleRule :
    Composed stream limit .moved (fun _ o reach => middleRule reach (c.under o)) .moved := by
  unfold middleRule
  refine .bind (composed_expect c hc .semicolon .endOfForInitializer _) fun _ => ?_
  refine .bind (composed_clauseRule c hc .semicolon) fun condition => ?_
  exact .bind (composed_expect c hc .semicolon .endOfForCondition _) fun _ => .pure _ condition

theorem composed_innerRule (headed : Headed) :
    Composed stream limit .atToken (fun _ o reach => innerRule reach headed (c.under o))
    .moved := by
  unfold innerRule
  refine .bind (.advance c hc (.inl rfl)) fun _ => ?_
  refine .bind (composed_expect c hc .openParen headed.opening _) fun _ => ?_
  cases headed with
  | ifElse => exact .map _ (.reach .expression c.allowingIn hc (.inl rfl))
  | whileLoop => exact .map _ (.reach .expression c.allowingIn hc (.inl rfl))
  | forLoop =>
      have hclauses : Composed stream limit .moved
          (fun _ o reach => clausesRule reach (c.under o)) .moved :=
        .bind (composed_forInitializerRule c hc) fun initializer =>
          .bind (composed_middleRule c hc) fun condition => .pure _ (initializer, condition)
      exact .bind hclauses fun clauses => .map _ (composed_clauseRule c hc .closeParen)

theorem composed_headRule (headed : Headed) :
    Composed stream limit .atToken (fun _ o reach => headRule reach headed (c.under o)) .moved := by
  unfold headRule
  refine .bind (composed_innerRule c hc headed) fun head => ?_
  exact .bind (.closing c .closeParen headed.closing hc) fun _ => .pure _ head

theorem composed_bodyRule (start : Nat) (head : Head) :
    Composed stream limit .moved (fun _ o reach => bodyRule reach start (c.under o) head)
    .moved := by
  unfold bodyRule
  cases head with
  | ifElse condition =>
      refine .bind (.reach .branch c hc (.inl rfl)) fun thenBranch => ?_
      refine .accept c hc nofun ?_ fun t => ?_
      · exact .bind (.map some (.reach .branch c hc (.inl rfl))) fun elseBranch =>
          .add .moved c start _ hc rfl
      · exact .bind (.pure .moved none) fun elseBranch => .add .moved c start _ hc rfl
  | whileLoop | forLoop =>
      exact .bind (.reach .branch c hc (.inl rfl)) fun body => .add .moved c start _ hc rfl

end

end Grammar
end ScriptHints
