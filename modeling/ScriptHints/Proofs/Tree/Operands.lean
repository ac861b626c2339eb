import ScriptHints.Proofs.Tree.Shape

/-!
# Operands of parsed trees

Walking through a parsed tree in the order of the text, one meets its operands in the order
of their tokens, and none is missing: a token that is an operand has a leaf of its own, or
is part of a statement that was skipped.
-/

namespace ScriptHints

namespace Grammar

structure Run where
  first : Nat
  stop : Nat
deriving DecidableEq, Repr

def Run.Has (run : Run) (i : Nat) : Prop :=
  run.first ≤ i ∧ i < run.stop

end Grammar

namespace Syntax

open Grammar

/-!
## Leaves
-/

namespace SyntaxTree

def isLeaf (t : SyntaxTree) (id : NodeId) : Bool :=
  match t.node id with
  | .ok n => n.isLeaf
  | .error _ => false

/-- A leaf was made from a run of tokens and has its place in the text. -/
def MadeFrom (t : SyntaxTree) (c : Context) (id : NodeId) (run : Run) : Prop :=
  exists n, t.node id = .ok n ∧ LeafOver c n run.first run.stop ∧
    t.span id = .ok (c.spanOf run.first run.stop)

theorem visit_of_children {t : SyntaxTree} {id : NodeId} {children : List NodeId}
    (h : t.children id = .ok children) (b : Nat) (stack : List (Nat × NodeId)) :
    t.visit ((b + 1, id) :: stack) = (t.visit (children.map (b, ·) ++ stack)).map (id :: ·) := by
  rw [visit]
  split
  next heq =>
    rw [h] at heq
    cases heq
  next heq =>
    rw [h] at heq
    cases heq
    rfl

end SyntaxTree

namespace Forest

def leaves : Forest → List NodeId
  | .nil => []
  | .node id n _ _ below more => if n.isLeaf then id :: more.leaves else below.leaves ++ more.leaves

def runs : Forest → List Run
  | .nil => []
  | .node _ n first stop below more =>
      if n.isLeaf then ⟨first, stop⟩ :: more.runs else below.runs ++ more.runs

variable {c : Context} {t : SyntaxTree} {parent : Option NodeId}

/-- The nodes of a forest are visited before everything else that waits. -/
theorem In.visit {spanOf : Nat → Nat → Span} {f : Forest} (h : f.In spanOf t parent) (b : Nat)
    (hbudget : f.postOrder.length ≤ b) (stack : List (Nat × NodeId)) :
    t.visit (f.roots.map (b, ·) ++ stack) = (t.visit stack).map (f.preOrder ++ ·) := by
  induction f generalizing parent b stack with
  | nil => cases heq : t.visit stack <;> simp [roots, preOrder, heq, Except.map]
  | node id n first stop below more ihBelow ihMore =>
      rcases h with ⟨hentry, hchildren, hbelow, hmore⟩
      have hlength : below.postOrder.length + (more.postOrder.length + 1) ≤ b := by
        rw [← List.length_cons, ← List.length_append]
        exact hbudget
      rcases (⟨b - 1, by omega⟩ : exists b', b = b' + 1) with ⟨b, rfl⟩
      have hhere : t.children id = .ok below.roots := by
        rw [← hchildren]
        exact SyntaxTree.children_of_get? hentry
      rw [roots, List.map_cons, List.cons_append, SyntaxTree.visit_of_children hhere,
        ihBelow hbelow b (by omega), ihMore hmore (b + 1) (by omega)]
      cases t.visit stack with
      | error fault => rfl
      | ok order =>
          show Except.ok (id :: (below.preOrder ++ (more.preOrder ++ order))) =
            Except.ok (id :: (below.preOrder ++ more.preOrder) ++ order)
          rw [List.cons_append, List.append_assoc]

theorem In.filter_isLeaf {spanOf : Nat → Nat → Span} {f : Forest} (h : f.In spanOf t parent)
    {first stop : Nat} (hcovers : Covers c first f stop) :
    f.preOrder.filter t.isLeaf = f.leaves := by
  induction f generalizing parent first stop with
  | nil => rfl
  | node id n start behind below more ihBelow ihMore =>
      rcases h with ⟨hentry, _, hbelow, hmore⟩
      rcases hcovers with ⟨_, hinside, hbehind⟩
      have hleaf : t.isLeaf id = n.isLeaf := by
        unfold SyntaxTree.isLeaf
        rw [SyntaxTree.node_of_get? hentry]
      rw [preOrder, List.filter_cons, List.filter_append, ihMore hmore hbehind, hleaf, leaves]
      split at hinside
      next hn =>
        rw [if_pos hn, if_pos hn, hinside.2]
        rfl
      next hn =>
        rw [if_neg hn, if_neg hn, ihBelow hbelow hinside]

theorem In.madeFrom {f : Forest} (h : f.In c.spanOf t parent) {first stop : Nat}
    (hcovers : Covers c first f stop) : List.Forall₂ (t.MadeFrom c) f.leaves f.runs := by
  induction f generalizing parent first stop with
  | nil => exact .nil
  | node id n start behind below more ihBelow ihMore =>
      rcases h with ⟨hentry, _, hbelow, hmore⟩
      rcases hcovers with ⟨_, hinside, hbehind⟩
      rw [leaves, runs]
      split at hinside
      next hn =>
        rw [if_pos hn, if_pos hn]
        refine .cons ⟨n, SyntaxTree.node_of_get? hentry, hinside.1, ?_⟩ (ihMore hmore hbehind)
        exact SyntaxTree.span_of_get? hentry
      next hn =>
        rw [if_neg hn, if_neg hn]
        exact List.rel_append (ihBelow hbelow hinside) (ihMore hmore hbehind)

theorem runs_between {f : Forest} {first stop : Nat} (hcovers : Covers c first f stop)
    {run : Run} (hrun : run ∈ f.runs) : first ≤ run.first ∧ run.stop ≤ stop := by
  induction f generalizing first stop with
  | nil => cases hrun
  | node id n start behind below more ihBelow ihMore =>
      rcases hcovers with ⟨hquiet, hinside, hbehind⟩
      have hfirst := hquiet.1
      have hstop := hbehind.le
      rw [runs] at hrun
      split at hinside
      next hn =>
        have hwidth := hinside.1.le
        rw [if_pos hn] at hrun
        rcases List.mem_cons.mp hrun with hhere | hmore
        · rw [hhere]
          exact ⟨hfirst, hstop⟩
        · have hlater := ihMore hbehind hmore
          exact ⟨hfirst.trans (hwidth.trans hlater.1), hlater.2⟩
      next hn =>
        have hwidth := hinside.le
        rw [if_neg hn] at hrun
        rcases List.mem_append.mp hrun with hbelow | hmore
        · have hearlier := ihBelow hinside hbelow
          exact ⟨hfirst.trans hearlier.1, hearlier.2.trans hstop⟩
        · have hlater := ihMore hbehind hmore
          exact ⟨hfirst.trans (hwidth.trans hlater.1), hlater.2⟩

theorem pairwise_runs {f : Forest} {first stop : Nat} (hcovers : Covers c first f stop) :
    f.runs.Pairwise fun run run' => run.stop ≤ run'.first := by
  induction f generalizing first stop with
  | nil => exact .nil
  | node id n start behind below more ihBelow ihMore =>
      rcases hcovers with ⟨_, hinside, hbehind⟩
      rw [runs]
      split at hinside
      next hn =>
        rw [if_pos hn]
        refine .cons ?_ (ihMore hbehind)
        intro run hrun
        exact (runs_between hbehind hrun).1
      next hn =>
        rw [if_neg hn]
        refine List.pairwise_append.mpr ⟨ihBelow hinside, ihMore hbehind, ?_⟩
        intro run hrun run' hrun'
        exact (runs_between hinside hrun).2.trans (runs_between hbehind hrun').1

theorem exists_run {f : Forest} {first stop : Nat} (hcovers : Covers c first f stop) {i : Nat}
    (hfirst : first ≤ i) (hstop : i < stop) (hoperand : (c.stream.get i).kind.isOperand = true) :
    exists run, run ∈ f.runs ∧ run.Has i := by
  have hnotQuiet {first' stop' : Nat} (hquiet : Quiet c.stream first' stop') (hle : first' ≤ i) :
      stop' ≤ i := by
    apply Nat.le_of_not_lt
    intro hlt
    rw [hquiet.2 i hle hlt] at hoperand
    cases hoperand
  induction f generalizing first stop with
  | nil => exact absurd (hnotQuiet hcovers hfirst) (Nat.not_le_of_lt hstop)
  | node id n start behind below more ihBelow ihMore =>
      rcases hcovers with ⟨hquiet, hinside, hbehind⟩
      have hstart := hnotQuiet hquiet hfirst
      rw [runs]
      by_cases hin : i < behind
      · split at hinside
        next hn =>
          rw [if_pos hn]
          exact ⟨⟨start, behind⟩, List.mem_cons_self, hstart, hin⟩
        next hn =>
          rw [if_neg hn]
          rcases ihBelow hinside hstart hin with ⟨run, hrun, hhas⟩
          exact ⟨run, List.mem_append_left _ hrun, hhas⟩
      · rcases ihMore hbehind (Nat.le_of_not_lt hin) hstop with ⟨run, hrun, hhas⟩
        refine ⟨run, ?_, hhas⟩
        split
        next => exact List.mem_cons_of_mem _ hrun
        next => exact List.mem_append_right _ hrun

end Forest

end Syntax

namespace Grammar

open Syntax Token

theorem Run.Has.unique {runs : List Run}
    (h : runs.Pairwise fun run run' => run.stop ≤ run'.first) {i k k' : Nat} {run run' : Run}
    (hrun : runs[k]? = some run) (hhas : run.Has i) (hrun' : runs[k']? = some run')
    (hhas' : run'.Has i) : k = k' := by
  have hordered {k k' : Nat} {run run' : Run} (hrun : runs[k]? = some run) (hhas : run.Has i)
      (hrun' : runs[k']? = some run') (hhas' : run'.Has i) : ¬ k < k' := by
    intro hlt
    rcases List.getElem?_eq_some_iff.mp hrun with ⟨hk, rfl⟩
    rcases List.getElem?_eq_some_iff.mp hrun' with ⟨hk', rfl⟩
    have hle := List.pairwise_iff_getElem.mp h k k' hk hk' hlt
    exact absurd (hhas.2.trans_le (hle.trans hhas'.1)) (Nat.lt_irrefl i)
  exact Nat.le_antisymm (Nat.le_of_not_lt (hordered hrun' hhas' hrun hhas))
    (Nat.le_of_not_lt (hordered hrun hhas hrun' hhas'))

theorem Whole.descendants {c : Context} {tree : SyntaxTree} {root : NodeId} {f : Forest}
    (h : Whole c tree root f) : tree.descendants root = .ok f.preOrder := by
  have hvisit := h.entries.visit tree.budget h.length_le_budget []
  rw [h.roots, SyntaxTree.visit] at hvisit
  have hvisit : tree.descendants root = .ok (f.preOrder ++ []) := hvisit
  rw [hvisit, List.append_nil]

/--
The leaves of a parsed tree, met in a walk through its descendants, were made from runs of
tokens that lie one behind the other: an operand from the token whose text or value it
holds, a skipped statement from all of its tokens. Every operand among the tokens belongs to
just one of these runs.
-/
theorem parsed_operands (text : String) (o : Options) (tree : SyntaxTree)
    (h : Parses text o tree) :
    exists stream root nodes, exists runs : List Run, tokensOf text = .ok stream ∧
      tree.root = some root ∧ tree.descendants root = .ok nodes ∧
      List.Forall₂ (tree.MadeFrom (scriptContext text stream o)) (nodes.filter tree.isLeaf) runs ∧
      (runs.Pairwise fun run run' => run.stop ≤ run'.first) ∧
      (forall run, run ∈ runs -> run.stop ≤ stream.size) ∧
      forall i, i < stream.size -> (stream.get i).kind.isOperand = true ->
        ∃! k : Nat, exists run, runs[k]? = some run ∧ run.Has i := by
  rcases whole_of_parses h with ⟨stream, root, f, htokens, hwhole⟩
  have hordered := Forest.pairwise_runs hwhole.covers
  refine ⟨stream, root, f.preOrder, f.runs, htokens, hwhole.top, hwhole.descendants, ?_, hordered,
    fun run hrun => (Forest.runs_between hwhole.covers hrun).2, ?_⟩
  · rw [hwhole.entries.filter_isLeaf hwhole.covers]
    exact hwhole.entries.madeFrom hwhole.covers
  · intro i hi hoperand
    rcases Forest.exists_run hwhole.covers (Nat.zero_le i) hi hoperand with ⟨run, hrun, hhas⟩
    rcases List.getElem?_of_mem hrun with ⟨k, hk⟩
    refine ⟨k, ⟨run, hk, hhas⟩, ?_⟩
    rintro k' ⟨run', hk', hhas'⟩
    exact Run.Has.unique hordered hk' hhas' hk hhas

theorem parsed_operands_strayParenthesis :
    exists tree, Parses "a;)b" .lenient tree ∧
      exists stream root nodes, exists runs : List Run, tokensOf "a;)b" = .ok stream ∧
        tree.root = some root ∧ tree.descendants root = .ok nodes ∧
        List.Forall₂ (tree.MadeFrom (scriptContext "a;)b" stream .lenient))
          (nodes.filter tree.isLeaf) runs ∧
        (runs.Pairwise fun run run' => run.stop ≤ run'.first) ∧
        (forall run, run ∈ runs -> run.stop ≤ stream.size) ∧
        forall i, i < stream.size -> (stream.get i).kind.isOperand = true ->
          ∃! k : Nat, exists run, runs[k]? = some run ∧ run.Has i := by
  rcases parses_strayParenthesis with ⟨tree, hparses⟩
  exact ⟨tree, hparses, parsed_operands "a;)b" .lenient tree hparses⟩

end Grammar
end ScriptHints
