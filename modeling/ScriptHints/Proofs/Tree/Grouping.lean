import ScriptHints.Proofs.Tree.Forest

/-!
# How tight nodes bind

Printing puts no parentheses around anything, so an operand has to bind at least as tight
as its place in a node wants. Tightness is counted upwards: a sequence binds loosest, then
assignments, conditionals, the binary operators by their precedence, the operators with one
operand, constructions without an argument list, and everything else.
-/

namespace ScriptHints
namespace Syntax

namespace Node

def tightness : Node → Nat
  | .sequence _ => 0
  | .assignment _ _ _ => 1
  | .conditional _ _ _ => 2
  | .binary operator _ _ => 2 + operator.precedence
  | .unary _ _ | .update _ _ _ => 13
  | .construction _ none => 14
  | _ => 15

/-- What a node wants of its parts, which are given in the order of its children. -/
def Groups (node : Node) (parts : List Node) : Prop :=
  match node, parts with
  | .sequence _, parts => 2 ≤ parts.length ∧ forall part, part ∈ parts -> 1 ≤ part.tightness
  | .assignment _ _ _, [target, value] => 2 ≤ target.tightness ∧ 1 ≤ value.tightness
  | .conditional _ _ _, [test, consequent, alternative] =>
      3 ≤ test.tightness ∧ 1 ≤ consequent.tightness ∧ 1 ≤ alternative.tightness
  | .binary operator _ _, [left, right] =>
      2 + operator.precedence ≤ left.tightness ∧ 3 + operator.precedence ≤ right.tightness
  | .unary _ _, [operand] => 13 ≤ operand.tightness
  | .update _ .before _, [operand] => 13 ≤ operand.tightness
  | .update _ .behind _, [operand] => 14 ≤ operand.tightness
  | .propertyAccess _ _, [target, _] => 15 ≤ target.tightness
  | .elementAccess _ _, [target, _] => 15 ≤ target.tightness
  | .call _ _, target :: arguments =>
      15 ≤ target.tightness ∧ forall argument, argument ∈ arguments -> 1 ≤ argument.tightness
  | .construction _ _, target :: arguments =>
      14 ≤ target.tightness ∧ forall argument, argument ∈ arguments -> 1 ≤ argument.tightness
  | .array _, elements => forall element, element ∈ elements -> 1 ≤ element.tightness
  | .property _ _, [_, value] => 1 ≤ value.tightness
  | .variable _ _, _ :: initializer => forall value, value ∈ initializer -> 1 ≤ value.tightness
  | _, _ => True

/-- A node whose parts are as it wants them joins some, if it joins parts. -/
theorem children_ne_nil_of_groups (node : Node) {parts : List Node} (h : node.Groups parts)
    (hlength : node.children.length = parts.length) (hjoined : node.isJoined = true) :
    node.children ≠ [] := by
  cases node with
  | sequence expressions =>
      apply List.ne_nil_of_length_pos
      rw [hlength]
      exact Nat.lt_of_lt_of_le Nat.zero_lt_two h.1
  | binary | assignment | propertyAccess | property => exact List.cons_ne_nil _ _
  | _ => cases hjoined

def isConstruction : Node → Bool
  | .construction _ _ => true
  | _ => false

/-- Operations bind tighter than conditionals and looser than operators with one operand. -/
theorem precedence_between (operator : BinaryOperator) :
    1 ≤ operator.precedence ∧ operator.precedence ≤ 10 := by
  cases operator <;> decide

theorem tightness_binary (operator : BinaryOperator) (left right : NodeId) :
    (Node.binary operator left right).tightness = 2 + operator.precedence := rfl

end Node

namespace Forest

def callFree : Forest → Bool
  | .nil => true
  | .node _ n _ _ below _ =>
      match n with
      | .call _ _ => false
      | .propertyAccess _ _ | .elementAccess _ _ => below.callFree
      | _ => true

/-- The parts of every node bind as tight as the node wants, and the target of a construction
is free of calls. -/
def Grouped : Forest → Prop
  | .nil => True
  | .node _ n _ _ below more =>
      n.Groups below.rootNodes ∧ (n.isConstruction = true -> below.callFree = true) ∧
        below.Grouped ∧ more.Grouped

theorem Grouped.append {f g : Forest} (hf : f.Grouped) (hg : g.Grouped) : (f ++ g).Grouped := by
  induction f with
  | nil => exact hg
  | node id n first stop below more _ ih =>
      rcases hf with ⟨hnode, hfree, hbelow, hmore⟩
      exact ⟨hnode, hfree, hbelow, ih hmore⟩

end Forest

end Syntax
end ScriptHints
