import ScriptHints.Proofs.Parallel.Transport
import ScriptHints.Proofs.Safety.Requests

/-!
# A parser and a new one for the remaining tokens

A parser that has come to some position and has some nodes in its tree answers a request like
a new parser that has only the remaining tokens: with the same error, or with the same tree
with its ids raised by the number of the nodes that were there, which stand first and are left
as they are.
-/

namespace ScriptHints

namespace Token
namespace TokenStream

def dropped (stream : TokenStream) (position : Nat) : TokenStream :=
  { body := (stream.body.toList.drop position).toArray, stop := stream.stop }

variable {stream : TokenStream} {position : Nat}

theorem size_dropped (stream : TokenStream) (position : Nat) :
    (stream.dropped position).size = stream.size - position := by
  simp [dropped, size]

theorem get_dropped (stream : TokenStream) (position p : Nat) :
    (stream.dropped position).get p = stream.get (position + p) := by
  simp [dropped, get]

theorem Ended.dropped (h : stream.Ended) (position : Nat) : (stream.dropped position).Ended where
  body t ht := h.body t (List.mem_of_mem_drop (by simpa [TokenStream.dropped] using ht))
  stop := h.stop

end TokenStream
end Token

namespace Grammar

open Syntax Token

def Context.dropped (c : Context) (position : Nat) : Context :=
  { c with stream := c.stream.dropped position }

theorem Context.get_dropped (c : Context) (position p : Nat) :
    (c.dropped position).stream.get p = c.stream.get (position + p) :=
  c.stream.get_dropped position p

namespace Parser

/-!
## Answers of a parser and of a new one
-/

def fresh (p : Parser) : Parser :=
  ⟨p.context.dropped p.state.position, State.start⟩

theorem context_answer (p : Parser) (request : Request) :
    (p.answer request).2.context = p.context := by
  rw [answer_eq]
  unfold run
  split <;> rfl

def outcome (p : Parser) (request : Request) : Except SyntaxError SyntaxTree × State :=
  ((p.answer request).1, (p.answer request).2.state)

/-- From a state, an answer is like that of a new parser for the tokens that are left. -/
structure AnswersLike (before : State) (answer fresh : Except SyntaxError SyntaxTree × State) :
    Prop where
  position : answer.2.position = before.position + fresh.2.position
  diagnostics : answer.2.diagnostics.toList =
    before.diagnostics.toList ++ fresh.2.diagnostics.toList
  /-- The nodes that were there are followed by the tree of the new parser. -/
  accepted (tree : SyntaxTree) : fresh.1 = .ok tree ->
    exists tree', answer.1 = .ok tree' ∧ tree'.root = tree.root.map before.offset.id ∧
      tree.Displaced before.offset Eq before.tree tree' ∧ answer.2.tree = SyntaxTree.empty
  /-- What a failed reading has built stands behind the nodes that were there. -/
  rejected (e : SyntaxError) : fresh.1 = .error e ->
    answer.1 = .error e ∧ fresh.2.tree.Displaced before.offset Eq before.tree answer.2.tree

/-- Everything is the same, with its place in the text. -/
def exactly : Likeness where
  exact := True
  spans := Eq

section

variable {d : Offset} {c c' : Context}

theorem spanOf_displaced (h : forall p, c'.stream.get (d.tokens + p) = c.stream.get p)
    (first stop : Nat) : c'.spanOf (d.tokens + first) (d.tokens + stop) = c.spanOf first stop := by
  have hlast : max (d.tokens + stop - 1) (d.tokens + first) = d.tokens + max (stop - 1) first := by
    omega
  unfold Context.spanOf
  rw [hlast, h, h]

theorem textOf_displaced (h : forall p, c'.stream.get (d.tokens + p) = c.stream.get p)
    (htext : c'.text = c.text) (first stop : Nat) :
    c'.textOf (d.tokens + first) (d.tokens + stop) = c.textOf first stop := by
  unfold Context.textOf Context.textBetween
  by_cases hle : stop ≤ first
  · rw [if_pos hle, if_pos (Nat.add_le_add_left hle _)]
  · have hlast : d.tokens + stop - 1 = d.tokens + (stop - 1) := by omega
    rw [if_neg hle, if_neg fun h => hle (Nat.le_of_add_le_add_left h), hlast, h, h, htext]

theorem mirrors_dropped (c : Context) (d : Offset) (hbound : d.tokens ≤ c.stream.size) :
    Mirrors d exactly (c.dropped d.tokens) c where
  options := rfl
  allowIn := rfl
  depth := rfl
  size := by
    show c.stream.size = d.tokens + (c.stream.dropped d.tokens).size
    rw [TokenStream.size_dropped]
    omega
  kind p := congrArg _ (c.get_dropped d.tokens p).symm
  lexeme p := congrArg _ (c.get_dropped d.tokens p).symm
  newlineBefore p := congrArg _ (c.get_dropped d.tokens p).symm
  span first stop := (spanOf_displaced (fun p => (c.get_dropped d.tokens p).symm) first stop).symm
  text first stop _ := textOf_displaced (fun p => (c.get_dropped d.tokens p).symm) rfl first stop
  exact _ p := (c.get_dropped d.tokens p).symm

/-- The budget of a context is enough for its tokens, and hence for those that are left. -/
theorem repeats_budget {ρ : Likeness} {old s s' : State} (ended : c.stream.Ended)
    (hc : Mirrors d ρ c c') (hs : Continues d ρ old s s') (hbound : s.position ≤ c.stream.size)
    (goal : Goal) (hgoal : goal.isTail = false) :
    Repeats d ρ old (goal.placedResult d 0) (grammar c.budget goal c s)
      (grammar c'.budget (goal.placed d 0) c' s') := by
  have hbudget : c'.budget = c.budget + rulesPerToken * d.tokens := by
    unfold Context.budget rulesPerToken
    rw [hc.size]
    omega
  have hrepeats := repeats_grammar d ρ old c'.budget goal 0 c c' s s' hc hs
    (by rw [hgoal]; exact nofun)
  have hsame := grammar_budget_add c ended (rulesPerToken * d.tokens) goal s hbound
  rw [← hbudget] at hsame
  rw [hsame] at hrepeats
  exact hrepeats

theorem repeats_read {ρ : Likeness} {old s s' : State} (ended : c.stream.Ended)
    (hc : Mirrors d ρ c c') (hs : Continues d ρ old s s') (hbound : s.position ≤ c.stream.size)
    (request : Request) :
    Repeats d ρ old d.id (read c request s) (read c' request s') := by
  cases request with
  | script =>
      show Repeats d ρ old d.id (readScript c s) (readScript c' s')
      unfold readScript
      rw [bind_position, bind_position, hs.position]
      refine (repeats_budget ended hc hs hbound (.statements .none) rfl).bind
        fun statements s₁ s₁' h₁ => ?_
      exact h₁.addSince hc s.position (.script statements)
  | expression =>
      show Repeats d ρ old d.id (readExpression c s) (readExpression c' s')
      unfold readExpression
      refine (repeats_budget ended hc hs hbound .expression rfl).bind fun expression s₁ s₁' h₁ => ?_
      rw [bind_peekKind, bind_peekKind, h₁.kind_next hc]
      split
      next => exact .ok expression h₁
      next => exact .error h₁ (h₁.error_eq hc _)

end

/-- The answer of a parser is that of a new parser for the remaining tokens. -/
theorem answersLike_fresh {p : Parser} (h : p.Ready) (request : Request) :
    AnswersLike p.state (p.outcome request) (p.fresh.outcome request) := by
  have hc := mirrors_dropped p.context p.state.offset h.bounded
  have hs : Continues p.state.offset exactly p.state State.start p.state :=
    ⟨rfl, SyntaxTree.displaced_empty rfl, fun _ => (List.append_nil _).symm⟩
  have hrepeats := repeats_read (h.ended.dropped _) hc hs (Nat.zero_le _) request
  unfold outcome
  rw [answer_eq, answer_eq]
  generalize hfresh : read (p.context.dropped p.state.offset.tokens) request State.start = r
    at hrepeats
  generalize hread : read p.context request p.state = r' at hrepeats
  have hfresh : read p.fresh.context request p.fresh.state = r := hfresh
  cases hrepeats with
  | ok root h₁ =>
      rw [run_of_ok hfresh, run_of_ok hread]
      constructor
      · exact h₁.position
      · exact h₁.diagnostics trivial
      · intro tree heq
        cases heq
        exact ⟨_, rfl, rfl, h₁.tree.withRoot _ _, rfl⟩
      · intro e heq
        cases heq
  | error h₁ he =>
      rw [run_of_error hfresh, run_of_error hread]
      constructor
      · exact h₁.position
      · exact h₁.diagnostics trivial
      · intro tree heq
        cases heq
      · intro fault heq
        cases heq
        rw [he trivial]
        exact ⟨rfl, h₁.tree⟩

end Parser
end Grammar
end ScriptHints
