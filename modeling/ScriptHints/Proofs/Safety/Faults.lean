import Mathlib
import ScriptHints.Proofs.Bytes.Run
import ScriptHints.Proofs.Inference.Answers
import ScriptHints.Proofs.Safety.Requests

/-!
# No text leads to a fault

Three things can go wrong on the way from a text to an answer: a slice that is not on the
boundaries of characters, a look at a token that is not there, and a look-up of a node that
is not in the tree. None of them happens, whatever the text is, however often a lexer or a
parser is asked, and whatever is asked about the nodes of the trees.
-/

namespace ScriptHints
namespace Inference

open Grammar Syntax Token TypeInfo

/-- Everything that can be asked about the nodes of a tree has an answer. -/
structure Answerable (setting : Setting) (t : SyntaxTree) : Prop where
  source (id : NodeId) : id.index < t.size -> Faultless (t.toSource id)
  descendants (id : NodeId) : id.index < t.size -> Faultless (t.descendants id)
  nodeAt (line column : Nat) : Faultless (t.nodeAt line column)
  signature (id : NodeId) : id.index < t.size -> Faultless (enclosingSignature t id)
  type (id : NodeId) : Faultless (classify setting t id)
  operands (id : NodeId) : id.index < t.size -> Faultless (operandType t id)
  resolution (target initializer : NodeId) : target.index < t.size ->
    initializer.index < t.size -> Faultless (canResolveVariable t target initializer)

theorem answerable_of_sound {setting : Setting} {t : SyntaxTree} (h : t.Sound)
    (hroot : exists root, t.root = some root ∧ root.index < t.size) : Answerable setting t where
  source _ hid := h.toSource_faultless hid
  descendants _ hid := (h.descendants_yields hid).faultless
  nodeAt line column := by
    rcases hroot with ⟨root, hroot, hin⟩
    apply h.nodeAt_faultless
    intro root' hsame
    rw [hroot] at hsame
    cases hsame
    exact hin
  signature _ hid := enclosingSignature_faultless h hid
  type id := classify_faultless setting h id
  operands _ hid := operandType_faultless h hid
  resolution _ _ htarget hinitializer := canResolveVariable_faultless h htarget hinitializer

/--
Asked for tokens any number of times, a lexer slices its text on boundaries only. Asked for
scripts and expressions in any order, a parser gives the same answers on the machine that
checks every look at a token, and every tree that it hands over answers all questions about
its nodes. What is entered is always answered.
-/
theorem text_without_faults (setting : Setting) (text : String) (o : Options) :
    (forall count, exists cursor, Scan.calls count (Cursor.ofText text) =
      .ok ((Lexer.ofText text).calls count) cursor) ∧
    (forall p requests, Parser.ofText text o = .ok p ->
      @Parser.answers .checked p requests = p.answers requests ∧
      (forall e, .error e ∈ p.answers requests -> e.fault ≠ .exhausted) ∧
      forall t, .ok t ∈ p.answers requests -> Answerable setting t) ∧
    Faultless (enteredExpression text) ∧ Faultless (enteredType setting text) := by
  refine ⟨calls_ofText text, ?_, enteredExpression_faultless text,
    enteredType_faultless setting text⟩
  intro p requests hparser
  rcases Parser.answers_checked (Parser.ready_ofText hparser) requests with ⟨hsame, hproper⟩
  refine ⟨hsame, fun e he => hproper _ he, ?_⟩
  intro t ht
  rcases hproper _ ht with ⟨hsound, hroot⟩
  exact answerable_of_sound hsound hroot

theorem text_without_faults_unclosedCall :
    exists p, Parser.ofText "f(a" .strict = .ok p ∧
      @Parser.answers .checked p [.script, .expression] = p.answers [.script, .expression] ∧
      (forall e, .error e ∈ p.answers [.script, .expression] -> e.fault ≠ .exhausted) ∧
      forall t, .ok t ∈ p.answers [.script, .expression] ->
        Answerable (Setting.ofRegistry Registry.empty) t := by
  have hparser : Parser.ofText "f(a" .strict =
    .ok (Parser.ofTokens "f(a" unclosedCall .strict) := by
    unfold Parser.ofText
    rw [tokensOf_unclosedCall]
    rfl
  exact ⟨_, hparser, (text_without_faults (Setting.ofRegistry Registry.empty) "f(a" .strict).2.1 _
    [.script, .expression] hparser⟩

end Inference
end ScriptHints
