import ScriptHints.Proofs.Parallel.Runs
import ScriptHints.Proofs.Settings.Statements

/-!
# One parser for many requests

A parser whose position, tree, diagnostics and settings are one state that all its readings
work on. What it carries from one request to the next is its position and the nodes that
failed readings left behind: the settings are restored by every reading, also by one that
fails deep inside of functions and loop headers. So the answer to a request is the answer of a
new parser that has only the remaining tokens.
-/

namespace ScriptHints
namespace Grammar
namespace Stateful

open Syntax Token

def Source.budget (src : Source) : Nat :=
  rulesPerToken * (src.stream.size + 2)

structure Parser where
  source : Source
  state : State

namespace Parser

def ofTokens (text : String) (stream : TokenStream) (o : Options) : Parser :=
  { source := { text := text.toList, stream := stream, options := o }
    state := ⟨State.start, Settings.initial⟩ }

/-- The tree of a successful reading, and the parser behind the reading. -/
def run (p : Parser) (read : Reader NodeId) : Except SyntaxError SyntaxTree × Parser :=
  match read.run p.state with
  | .ok root s =>
      (.ok (s.tree.withRoot root), { p with state := { s with tree := SyntaxTree.empty } })
  | .error e s => (.error e, { p with state := s })

def readScript (src : Source) : Reader NodeId := do
  let start ← position
  let statements ← grammar src src.budget (.statements .none)
  addSince src start (.script statements)

def readExpression (src : Source) : Reader NodeId := do
  let expression ← grammar src src.budget .expression
  if (← peekKind src) = .endOfText then
    return expression
  else
    fail src .behindExpression

def read (src : Source) : Request → Reader NodeId
  | .script => readScript src
  | .expression => readExpression src

def answer (p : Parser) (request : Request) : Except SyntaxError SyntaxTree × Parser :=
  p.run (read p.source request)

def after (p : Parser) : List Request → Parser
  | [] => p
  | request :: requests => (p.answer request).2.after requests

def outcome (p : Parser) (request : Request) : Except SyntaxError SyntaxTree × Grammar.State :=
  ((p.answer request).1, (p.answer request).2.state.toState)

def fresh (p : Parser) : Parser :=
  { source := { p.source with stream := p.source.stream.dropped p.state.position }
    state := ⟨State.start, Settings.initial⟩ }

/-- The number of nodes that failed readings have built since the last success, with so many
before the first request. -/
def orphans (before : Nat) (p : Parser) : List Request → Nat
  | [] => before
  | request :: requests =>
      match p.fresh.answer request with
      | (.ok _, _) => (p.answer request).2.orphans 0 requests
      | (.error _, failed) =>
          (p.answer request).2.orphans (before + failed.state.tree.size) requests

/-!
## The settings behind a request
-/

theorem restores_read (src : Source) (request : Request) (σ : Settings) :
    Restores σ (read src request) (Grammar.Parser.read (src.context σ) request) := by
  cases request with
  | script =>
      refine .bind (.lift _) fun start => ?_
      exact .bind (restores_grammar src src.budget _ σ) fun statements => .lift _
  | expression =>
      refine .bind (restores_grammar src src.budget _ σ) fun expression =>
        .bind (.lift _) fun kind => ?_
      split
      · exact .pure _
      · exact .lift _

def contextual (p : Parser) : Grammar.Parser :=
  ⟨p.source.context p.state.toSettings, p.state.toState⟩

/-- A parser answers like the one to whose readings the settings are handed down, and the
settings are what they were. -/
theorem answer_eq (p : Parser) (request : Request) :
    p.answer request =
      ((p.contextual.answer request).1,
        ⟨p.source, (p.contextual.answer request).2.state, p.state.toSettings⟩) := by
  have hread := restores_read p.source request p.state.toSettings p.state.toState
  rw [Grammar.Parser.answer_eq]
  show (match read p.source request p.state with | .ok _ _ => _ | .error _ _ => _) = _
  rw [show read p.source request p.state = _ from hread]
  show _ = Prod.mk (p.contextual.run _).1 _
  cases hplain : Grammar.Parser.read p.contextual.context request p.contextual.state with
  | ok root s =>
      rw [show Grammar.Parser.read (p.source.context p.state.toSettings) request p.state.toState = _
        from hplain, Grammar.Parser.run_of_ok hplain]
      rfl
  | error e s =>
      rw [show Grammar.Parser.read (p.source.context p.state.toSettings) request p.state.toState = _
        from hplain, Grammar.Parser.run_of_error hplain]
      rfl

theorem outcome_eq (p : Parser) (request : Request) :
    p.outcome request = p.contextual.outcome request := by
  unfold outcome
  rw [answer_eq]
  rfl

theorem settings_answer (p : Parser) (request : Request) :
    (p.answer request).2.state.toSettings = p.state.toSettings := by
  rw [answer_eq]

theorem source_answer (p : Parser) (request : Request) :
    (p.answer request).2.source = p.source := by
  rw [answer_eq]

theorem settings_after (p : Parser) (requests : List Request) :
    (p.after requests).state.toSettings = p.state.toSettings := by
  induction requests generalizing p with
  | nil => rfl
  | cons request requests ih => exact (ih _).trans (p.settings_answer request)

theorem source_after (p : Parser) (requests : List Request) :
    (p.after requests).source = p.source := by
  induction requests generalizing p with
  | nil => rfl
  | cons request requests ih => exact (ih _).trans (p.source_answer request)

/-!
## Answers of a parser and of a new one
-/

/-- A parser between two requests. -/
structure Ready (p : Parser) : Prop where
  contextual : p.contextual.Ready
  settings : p.state.toSettings = Settings.initial

theorem Ready.answer {p : Parser} (h : p.Ready) (request : Request) :
    (p.answer request).2.Ready where
  contextual := by
    have hnext := (Grammar.Parser.answer_checked h.contextual request).2.2
    have hbounded := hnext.bounded
    rw [p.contextual.context_answer] at hbounded
    rw [answer_eq]
    exact ⟨h.contextual.ended, hbounded, hnext.sound⟩
  settings := (p.settings_answer request).trans h.settings

theorem Ready.after {p : Parser} (h : p.Ready) (requests : List Request) :
    (p.after requests).Ready := by
  induction requests generalizing p with
  | nil => exact h
  | cons request requests ih => exact ih (h.answer request)

theorem Ready.answersLike {p : Parser} (h : p.Ready) (request : Request) :
    Grammar.Parser.AnswersLike p.state.toState (p.outcome request) (p.fresh.outcome request) := by
  have hfresh : p.fresh.contextual = p.contextual.fresh := by
    show Grammar.Parser.mk _ _ = Grammar.Parser.mk ((p.source.context _).dropped _) _
    rw [h.settings]
    rfl
  rw [outcome_eq, outcome_eq, hfresh]
  exact Grammar.Parser.answersLike_fresh h.contextual request

theorem Ready.size_after {p : Parser} (h : p.Ready) (requests : List Request) :
    (p.after requests).state.tree.size = p.orphans p.state.tree.size requests := by
  induction requests generalizing p with
  | nil => rfl
  | cons request requests ih =>
      have hlike := h.answersLike request
      have hnext := ih (h.answer request)
      show ((p.answer request).2.after requests).state.tree.size = _
      rw [hnext, orphans]
      split
      next tree failed hanswer =>
        rcases hlike.accepted tree (congrArg Prod.fst hanswer) with ⟨_, _, _, _, hempty⟩
        rw [show (p.answer request).2.state.tree = _ from hempty]
        rfl
      next e failed hanswer =>
        have hsize := (hlike.rejected e (congrArg Prod.fst hanswer)).2.size
        rw [show (p.answer request).2.state.tree.size = _ from hsize]
        unfold outcome
        rw [hanswer]
        rfl

/-- Behind any requests, successful or not, the settings are those of a new parser. A parser
answers like a new one for the tokens that are left, and the nodes that stand before its tree
are those of the failed readings since the last success. -/
theorem answersLike_after {text : String} {stream : TokenStream} (h : tokensOf text = .ok stream)
    (o : Options) (history : List Request) (request : Request) :
    let p := (ofTokens text stream o).after history
    p.state.toSettings = Settings.initial ∧
      Grammar.Parser.AnswersLike p.state.toState (p.outcome request)
        ((ofTokens text (stream.dropped p.state.position) o).outcome request) ∧
      p.state.tree.size = (ofTokens text stream o).orphans 0 history := by
  intro p
  have hstart : (ofTokens text stream o).Ready :=
    ⟨⟨ended_tokensOf h, Nat.zero_le _, SyntaxTree.sound_empty⟩, rfl⟩
  have hready : p.Ready := hstart.after history
  have hfresh : p.fresh = ofTokens text (stream.dropped p.state.position) o := by
    unfold fresh
    rw [source_after]
    rfl
  refine ⟨settings_after _ history, ?_, hstart.size_after history⟩
  rw [← hfresh]
  exact hready.answersLike request

theorem answersLike_after_failure :
    tokensOf "a;)b" = .ok strayParenthesis ∧
      let p := (ofTokens "a;)b" strayParenthesis .strict).after [.expression]
      p.state.toSettings = Settings.initial ∧
        Grammar.Parser.AnswersLike p.state.toState (p.outcome .script)
          ((ofTokens "a;)b" (strayParenthesis.dropped p.state.position) .strict).outcome .script) ∧
        p.state.tree.size = (ofTokens "a;)b" strayParenthesis .strict).orphans 0 [.expression] :=
  ⟨tokensOf_strayParenthesis, answersLike_after tokensOf_strayParenthesis .strict
    [.expression] .script⟩

end Parser

end Stateful
end Grammar
end ScriptHints
