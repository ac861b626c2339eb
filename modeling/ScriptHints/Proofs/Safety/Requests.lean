import ScriptHints.Proofs.Reader.Budget
import ScriptHints.Proofs.Tree.Parsed

/-!
# Requests to a parser

A parser may be asked for scripts and expressions any number of times, also after a reading
that failed. It never looks for a token that is not there: on the checked machine it gives
the same answers, none of which says that the reading stopped. All trees that it hands over
are sound.
-/

namespace ScriptHints
namespace Grammar

open Syntax Token

inductive Request where
  | script | expression
deriving DecidableEq, Repr

namespace Parser

def answer [Machine] (p : Parser) : Request → Except SyntaxError SyntaxTree × Parser
  | .script => p.script
  | .expression => p.expression

def answers [Machine] (p : Parser) : List Request → List (Except SyntaxError SyntaxTree)
  | [] => []
  | request :: requests => (p.answer request).1 :: (p.answer request).2.answers requests

def read [Machine] (c : Context) : Request → Reader NodeId
  | .script => readScript c
  | .expression => readExpression c

theorem answer_eq [Machine] (p : Parser) (request : Request) :
    p.answer request = p.run (read p.context request) := by
  cases request <;> rfl

/-!
## Readings on a faithful machine
-/

section

variable {m : Machine} [m.Faithful] {c : Context}

theorem settled_readScript (ended : c.stream.Ended) {s : State}
    (hbound : s.position ≤ c.stream.size) :
    Settled (@readScript .trusting c s) (@readScript m c s) := by
  unfold readScript
  rw [bind_position, bind_position]
  have hstatements := settled_grammar (m := m) ended c.budget 0 (.statements .none) c s rfl hbound
    (Goal.need_le_budget _ c s)
  apply hstatements.bind
  intro statements s₁ _
  rw [addSince_eq_trusting, addSince_eq]
  exact .ok _ _

theorem settled_readExpression (ended : c.stream.Ended) {s : State}
    (hbound : s.position ≤ c.stream.size) :
    Settled (@readExpression .trusting c s) (@readExpression m c s) := by
  have hexpression := settled_grammar (m := m) ended c.budget 0 .expression c s rfl hbound
    (Goal.need_le_budget _ c s)
  apply hexpression.bind
  intro expression s₁ heq
  have hsteps := (steady_grammar ended c.budget .expression c s rfl hbound).1
  rw [heq] at hsteps
  have hin : s₁.position ≤ c.stream.size := hsteps.bounded
  rw [bind_peekKind, peekKind_bind_eq, bind_peek_of_le c _ hin]
  split
  next => exact .ok _ _
  next =>
    rw [fail_eq, fail_eq_of_le c _ hin]
    exact .error _ nofun

theorem settled_read (ended : c.stream.Ended) {s : State} (hbound : s.position ≤ c.stream.size)
    (request : Request) : Settled (@read .trusting c request s) (@read m c request s) := by
  cases request with
  | script => exact settled_readScript ended hbound
  | expression => exact settled_readExpression ended hbound

end

/-!
## What readings leave behind
-/

/-- A reading ends among the tokens, and its tree is sound and has the root that it gives. -/
def Leaves (stream : TokenStream) (r : EStateM.Result SyntaxError State NodeId) : Prop :=
  (finalState r).position ≤ stream.size ∧ (finalState r).tree.Sound ∧
    forall root s, r = .ok root s -> root.index < s.tree.size

variable {c : Context} {s : State}

theorem leaves_readScript (ended : c.stream.Ended) (hbound : s.position ≤ c.stream.size)
    (hsound : s.tree.Sound) : Leaves c.stream (readScript c s) := by
  have hsteps := (steady_grammar ended c.budget (.statements .none) c s rfl hbound).1
  have hgrows := (growing_grammar c.budget).fresh (.statements .none) rfl c rfl ended s
  unfold readScript
  unfold Grows at hgrows
  rw [bind_position]
  cases heq : grammar c.budget (.statements .none) c s with
  | error e s₁ =>
      rw [heq] at hsteps hgrows
      rw [bind_of_error heq]
      exact ⟨hsteps.bounded, hgrows.sound hsound, nofun⟩
  | ok ids s₁ =>
      rw [heq] at hsteps hgrows
      rcases hgrows with ⟨f, hgrown, hreached⟩
      rw [bind_of_ok heq, addSince_eq]
      have hchildren : forall child, child ∈ (Node.script ids).children ->
          child.index < s₁.tree.size := by
        intro child hchild
        have hroot : child ∈ f.roots := by
          rw [hreached.rooted.roots]
          exact hchild
        exact hgrown.entries.index_lt (f.roots_sublist_postOrder.subset hroot)
      refine ⟨hsteps.bounded, (hgrown.kept.sound hsound).add _ hchildren, ?_⟩
      rintro _ _ ⟨rfl⟩
      show s₁.tree.size < (s₁.tree.add _ _).size
      rw [SyntaxTree.size_add]
      exact Nat.lt_succ_self _

theorem leaves_readExpression (ended : c.stream.Ended) (hbound : s.position ≤ c.stream.size)
    (hsound : s.tree.Sound) : Leaves c.stream (readExpression c s) := by
  have hsteps := (steady_grammar ended c.budget .expression c s rfl hbound).1
  have hgrows := (growing_grammar c.budget).fresh .expression rfl c rfl ended s
  unfold readExpression
  unfold Grows at hgrows
  cases heq : grammar c.budget .expression c s with
  | error e s₁ =>
      rw [heq] at hsteps hgrows
      rw [bind_of_error heq]
      exact ⟨hsteps.bounded, hgrows.sound hsound, nofun⟩
  | ok id s₁ =>
      rw [heq] at hsteps hgrows
      rcases hgrows with ⟨f, hgrown, hreached⟩
      have hleft := hgrown.kept.sound hsound
      have hroot : id ∈ f.roots := by
        rw [hreached.rooted.roots]
        exact List.mem_singleton_self id
      rw [bind_of_ok heq, bind_peekKind]
      split
      next =>
        refine ⟨hsteps.bounded, hleft, ?_⟩
        rintro _ _ ⟨rfl⟩
        exact hgrown.entries.index_lt (f.roots_sublist_postOrder.subset hroot)
      next =>
        rw [fail_eq]
        exact ⟨hsteps.bounded, hleft, nofun⟩

theorem leaves_read (ended : c.stream.Ended) (hbound : s.position ≤ c.stream.size)
    (hsound : s.tree.Sound) (request : Request) : Leaves c.stream (read c request s) := by
  cases request with
  | script => exact leaves_readScript ended hbound hsound
  | expression => exact leaves_readExpression ended hbound hsound

/-!
## Answers
-/

structure Ready (p : Parser) : Prop where
  ended : p.context.stream.Ended
  bounded : p.state.position ≤ p.context.stream.size
  sound : p.state.tree.Sound

theorem ready_ofText {text : String} {o : Options} {p : Parser} (h : ofText text o = .ok p) :
    p.Ready := by
  unfold ofText at h
  cases htokens : tokensOf text with
  | error e =>
      rw [htokens] at h
      cases h
  | ok stream =>
      rw [htokens] at h
      cases h
      exact ⟨ended_tokensOf htokens, Nat.zero_le _, SyntaxTree.sound_empty⟩

/-- An answer is a sound tree, or an error that does not say that the reading stopped. -/
def Proper : Except SyntaxError SyntaxTree → Prop
  | .ok tree => tree.Sound ∧ exists root, tree.root = some root ∧ root.index < tree.size
  | .error e => e.fault ≠ .exhausted

variable {p : Parser}

theorem answer_checked (h : p.Ready) (request : Request) :
    @answer .checked p request = p.answer request ∧ Proper (p.answer request).1 ∧
      (p.answer request).2.Ready := by
  have hsettled := settled_read (m := .checked) h.ended h.bounded request
  have hleaves := leaves_read h.ended h.bounded h.sound request
  rw [@answer_eq .checked, @answer_eq .trusting]
  cases heq : read p.context request p.state with
  | ok root s =>
      rw [heq] at hsettled hleaves
      rw [run_of_ok heq, run_of_ok hsettled.1]
      refine ⟨rfl, ⟨hleaves.2.1.withRoot root, root, rfl, hleaves.2.2 root s rfl⟩, ?_⟩
      exact ⟨h.ended, hleaves.1, SyntaxTree.sound_empty⟩
  | error e s =>
      rw [heq] at hsettled hleaves
      rw [run_of_error heq, run_of_error hsettled.1]
      exact ⟨rfl, hsettled.2 e s rfl, h.ended, hleaves.1, hleaves.2.1⟩

theorem answers_checked (h : p.Ready) (requests : List Request) :
    @answers .checked p requests = p.answers requests ∧
      forall result, result ∈ p.answers requests -> Proper result := by
  induction requests generalizing p with
  | nil =>
      simp only [answers]
      refine ⟨trivial, ?_⟩
      intro result hmem
      cases hmem
  | cons request requests ih =>
      rcases answer_checked h request with ⟨hsame, hproper, hready⟩
      rcases ih hready with ⟨hsames, hpropers⟩
      simp only [answers]
      constructor
      · rw [hsame, hsames]
      · intro result hmem
        rcases List.mem_cons.mp hmem with rfl | htail
        · exact hproper
        · exact hpropers result htail

end Parser
end Grammar
end ScriptHints
