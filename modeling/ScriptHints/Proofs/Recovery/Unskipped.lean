import ScriptHints.Proofs.Reader.Unbroken
import ScriptHints.Proofs.Tree.FittedRules

/-!
# Readings without recovery

Only recovery skips text. A reading that may not recover adds no node for skipped text, whether
it succeeds or not, and so there is none in its tree.
-/

namespace ScriptHints

open Token

namespace Syntax
namespace SyntaxTree

/-- No node stands for text that was skipped. -/
def Unskipped (t : SyntaxTree) : Prop :=
  forall id n, t.node id = .ok n -> n.isSkipped = false

theorem unskipped_empty : empty.Unskipped := by
  intro id n h
  cases h

theorem Unskipped.add {t : SyntaxTree} (h : t.Unskipped) {node : Node}
    (hnode : node.isSkipped = false) (span : Span) : (t.add node span).Unskipped := by
  intro id n hn
  rcases eq_or_node_of_add hn with ⟨_, rfl⟩ | hold
  · exact hnode
  · exact h id n hold

end SyntaxTree
end Syntax

namespace Grammar

open Syntax

theorem unbroken_unskipped (stream : TokenStream) {o : Options} (hstrict : o.recover = false) :
    Unbroken stream o fun s => s.tree.Unskipped where
  placed _ _ hs := hs
  added _ _ _ _ hnode hs := hs.add hnode _
  skipped _ _ _ _ hrecover _ := absurd (hstrict.symm.trans hrecover) Bool.false_ne_true
  reported _ _ _ _ _ hs := hs

theorem unskipped_of_parses {text : String} {o : Options} {tree : SyntaxTree}
    (h : Parses text o tree) (hstrict : o.recover = false) : tree.Unskipped := by
  rcases whole_of_parses h with ⟨stream, _, _, htokens, _⟩
  have hgoal (goal : Goal) :
      (finalState (grammar (scriptContext text stream o).budget goal (scriptContext text stream o)
        State.start)).tree.Unskipped :=
    upholds_grammar (unbroken_unskipped stream hstrict) (ended_tokensOf htokens)
      (scriptContext text stream o).budget goal (scriptContext text stream o) State.start rfl
      (Nat.zero_le _) SyntaxTree.unskipped_empty
  rcases h with ⟨ds, hparse⟩ | hparse
  · rw [parseScript_of_tokens htokens] at hparse
    cases heq : scriptReading text stream o with
    | error e s =>
        rw [heq] at hparse
        cases hparse
    | ok ids s =>
        rw [heq] at hparse
        cases hparse
        have hread := hgoal (.statements .none)
        rw [show grammar _ _ _ _ = _ from heq] at hread
        exact hread.add rfl _
  · rcases parseExpression_of_tokens htokens o hparse with ⟨root, s, rfl, hread⟩
    have heq := (Parser.readExpression_ok_iff.mp hread).1
    have hroot := hgoal .expression
    rw [heq] at hroot
    exact hroot

end Grammar
end ScriptHints
