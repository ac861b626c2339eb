import Mathlib.Data.List.Basic
import ScriptHints.Proofs.Syntax.Growth
import ScriptHints.Syntax.Source

/-!
# Operator trees

Names joined by binary operators. A tree is stratified if operators of one precedence group to
the left and tighter ones stand below. The names and the operators of a stratified tree, in
the order of the text, leave no choice about its shape: the root is the last operator of the
lowest precedence.
-/

namespace ScriptHints
namespace Syntax

inductive OperatorTree where
  | name (text : String)
  | joined (operator : BinaryOperator) (left right : OperatorTree)
deriving DecidableEq, Repr

namespace OperatorTree

def names : OperatorTree → List String
  | name text => [text]
  | joined _ left right => left.names ++ right.names

def operators : OperatorTree → List BinaryOperator
  | name _ => []
  | joined operator left right => left.operators ++ operator :: right.operators

def root? : OperatorTree → Option BinaryOperator
  | name _ => none
  | joined operator _ _ => some operator

def Stratified : OperatorTree → Prop
  | name _ => True
  | joined operator left right =>
      left.Stratified ∧ right.Stratified ∧
        (forall inner, left.root? = some inner -> operator.precedence ≤ inner.precedence) ∧
        (forall inner, right.root? = some inner -> operator.precedence < inner.precedence)

theorem length_names (t : OperatorTree) : t.names.length = t.operators.length + 1 := by
  induction t with
  | name text => rfl
  | joined operator left right ihl ihr =>
      rw [names, operators, List.length_append, List.length_append, List.length_cons, ihl, ihr]
      omega

/-!
## Stratified trees
-/

theorem Stratified.root_le {t : OperatorTree} (h : t.Stratified) {root : BinaryOperator}
    (hroot : t.root? = some root) :
    forall operator, operator ∈ t.operators -> root.precedence ≤ operator.precedence := by
  induction t generalizing root with
  | name text => cases hroot
  | joined operator left right ihl ihr =>
      cases hroot
      rcases h with ⟨hleft, hright, hle, hlt⟩
      intro other hother
      rcases List.mem_append.mp hother with hother | hother
      · cases hinner : left.root? with
        | none =>
            cases left with
            | name text => exact absurd hother List.not_mem_nil
            | joined => cases hinner
        | some inner => exact Nat.le_trans (hle inner hinner) (ihl hleft hinner other hother)
      · rcases List.mem_cons.mp hother with rfl | hother
        · exact Nat.le_refl _
        · cases hinner : right.root? with
          | none =>
              cases right with
              | name text => exact absurd hother List.not_mem_nil
              | joined => cases hinner
          | some inner =>
              exact Nat.le_trans (Nat.le_of_lt (hlt inner hinner)) (ihr hright hinner other hother)

section

variable {operator : BinaryOperator} {left right : OperatorTree}
  (h : (joined operator left right).Stratified) (other : BinaryOperator)

include h

theorem Stratified.left_le (hother : other ∈ left.operators) :
    operator.precedence ≤ other.precedence :=
  h.root_le rfl other (List.mem_append_left _ hother)

theorem Stratified.right_lt (hother : other ∈ right.operators) :
    operator.precedence < other.precedence := by
  rcases h with ⟨_, hright, _, hlt⟩
  cases right with
  | name text => exact absurd hother List.not_mem_nil
  | joined inner left right =>
      exact Nat.lt_of_lt_of_le (hlt inner rfl) (hright.root_le rfl other hother)

end

/-- The root of a stratified tree cannot stand further to the left in another one. -/
theorem Stratified.not_before {p q : BinaryOperator} {left right left' right' : OperatorTree}
    (h : (joined p left right).Stratified) (h' : (joined q left' right').Stratified)
    {between : List BinaryOperator} (hleft : left'.operators = left.operators ++ p :: between)
    (hright : right.operators = between ++ q :: right'.operators) : False := by
  have hle := h'.left_le p (by rw [hleft]; exact List.mem_append_right _ List.mem_cons_self)
  have hlt := h.right_lt q (by rw [hright]; exact List.mem_append_right _ List.mem_cons_self)
  exact absurd hlt (Nat.not_lt_of_le hle)

theorem Stratified.eq_of_same {t u : OperatorTree} (ht : t.Stratified) (hu : u.Stratified)
    (hnames : t.names = u.names) (hoperators : t.operators = u.operators) : t = u := by
  induction t generalizing u with
  | name text =>
      cases u with
      | name text' =>
          injection hnames with htext
          rw [htext]
      | joined q left' right' =>
          exact absurd hoperators.symm (List.append_ne_nil_of_right_ne_nil _ (List.cons_ne_nil _ _))
  | joined p left right ihl ihr =>
      cases u with
      | name text' =>
          exact absurd hoperators (List.append_ne_nil_of_right_ne_nil _ (List.cons_ne_nil _ _))
      | joined q left' right' =>
          have hsame : left.operators = left'.operators ∧ p = q ∧
              right.operators = right'.operators := by
            rcases List.append_eq_append_iff.mp hoperators with
              ⟨between, hleft, hright⟩ | ⟨between, hleft, hright⟩
            all_goals
              cases between with
              | nil =>
                  injection hright with hroot hright
                  rw [List.append_nil] at hleft
                  first
                    | exact ⟨hleft.symm, hroot, hright⟩
                    | exact ⟨hleft, hroot.symm, hright.symm⟩
              | cons other between =>
                  injection hright with hroot hright
                  subst hroot
                  first
                    | exact (ht.not_before hu hleft hright).elim
                    | exact (hu.not_before ht hleft hright).elim
          rcases hsame with ⟨hleft, rfl, hright⟩
          have hlength : left.names.length = left'.names.length := by
            rw [length_names, length_names, hleft]
          rcases List.append_inj hnames hlength with ⟨hnamesLeft, hnamesRight⟩
          rw [ihl ht.1 hu.1 hnamesLeft hleft, ihr ht.2.1 hu.2.1 hnamesRight hright]

/-!
## Chains
-/

/-- The first name of a tree, and the operators with the names behind them. -/
def first : OperatorTree → String
  | name text => text
  | joined _ left _ => left.first

def links : OperatorTree → List (BinaryOperator × String)
  | name _ => []
  | joined operator left right => left.links ++ (operator, right.first) :: right.links

theorem names_eq (t : OperatorTree) : t.names = t.first :: t.links.map Prod.snd := by
  induction t with
  | name text => rfl
  | joined operator left right ihl ihr =>
      rw [names, ihl, ihr, first, links, List.map_append, List.map_cons]
      rfl

theorem operators_eq (t : OperatorTree) : t.operators = t.links.map Prod.fst := by
  induction t with
  | name text => rfl
  | joined operator left right ihl ihr =>
      rw [operators, ihl, ihr, links, List.map_append, List.map_cons]

end OperatorTree

/-- Names with operators between them, and a blank on either side of each operator. -/
def chainText : String → List (BinaryOperator × String) → String
  | first, [] => first
  | first, (operator, name) :: links =>
      first ++ " " ++ operator.symbol ++ " " ++ chainText name links

theorem chainText_append (first : String) (links : List (BinaryOperator × String))
    (operator : BinaryOperator) (name : String) (more : List (BinaryOperator × String)) :
    chainText first (links ++ (operator, name) :: more) =
      chainText first links ++ " " ++ operator.symbol ++ " " ++ chainText name more := by
  induction links generalizing first with
  | nil => rfl
  | cons link links ih =>
      rw [List.cons_append, chainText, chainText, ih]
      simp only [String.append_assoc]

/-!
## Nodes that show operator trees
-/

/-- The node is the root of the operator tree; children come before their parents. -/
inductive SyntaxTree.Shows (t : SyntaxTree) : NodeId → OperatorTree → Prop where
  | name {id : NodeId} {text : String} :
      t.node id = .ok (.identifier text) -> Shows t id (.name text)
  | joined {id left right : NodeId} {operator : BinaryOperator} {l r : OperatorTree} :
      t.node id = .ok (.binary operator left right) -> left.index < id.index ->
      right.index < id.index -> Shows t left l -> Shows t right r ->
      Shows t id (.joined operator l r)

namespace SyntaxTree.Shows

variable {t t' : SyntaxTree} {id : NodeId} {tree : OperatorTree}

theorem grows (h : t.Shows id tree) (hgrows : t.Extends t') : t'.Shows id tree := by
  induction h with
  | name hnode => exact .name (hgrows.node_eq hnode)
  | joined hnode hleft hright _ _ ihl ihr =>
      exact .joined (hgrows.node_eq hnode) hleft hright ihl ihr

theorem index_lt (h : t.Shows id tree) : id.index < t.size := by
  have hnode : exists node, t.node id = .ok node := by
    cases h with
    | name hnode => exact ⟨_, hnode⟩
    | joined hnode => exact ⟨_, hnode⟩
  rcases hnode with ⟨node, hnode⟩
  apply Nat.lt_of_not_le
  intro hle
  have hnone : t.get? id = none := Array.getElem?_eq_none hle
  unfold SyntaxTree.node entry at hnode
  rw [hnone] at hnode
  cases hnode

theorem withRoot (h : t.Shows id tree) (root : NodeId) : (t.withRoot root).Shows id tree := by
  induction h with
  | name hnode => exact .name hnode
  | joined hnode hleft hright _ _ ihl ihr => exact .joined hnode hleft hright ihl ihr

theorem fragments (h : t.Shows id tree) {budget : Nat} (hbudget : id.index < budget)
    (level : Nat) : exists fragments, t.fragmentsWithin budget level id = .ok fragments ∧
      Fragment.textOf fragments = chainText tree.first tree.links := by
  induction h generalizing budget level with
  | @name id text hnode =>
      cases budget with
      | zero => exact absurd hbudget (Nat.not_lt_zero _)
      | succ budget =>
          refine ⟨[.lexeme text], ?_, ?_⟩
          · rw [fragmentsWithin, hnode]
            rfl
          · simp [Fragment.textOf, Fragment.text, OperatorTree.first, OperatorTree.links, chainText]
  | @joined id left right operator l r hnode hleft hright _ _ ihl ihr =>
      cases budget with
      | zero => exact absurd hbudget (Nat.not_lt_zero _)
      | succ budget =>
          rcases ihl (Nat.lt_of_lt_of_le hleft (Nat.le_of_lt_succ hbudget)) level with
            ⟨before, hbefore, htextBefore⟩
          rcases ihr (Nat.lt_of_lt_of_le hright (Nat.le_of_lt_succ hbudget)) level with
            ⟨behind, hbehind, htextBehind⟩
          refine ⟨before ++ [.blank, .lexeme operator.symbol, .blank] ++ behind, ?_, ?_⟩
          · rw [fragmentsWithin, hnode]
            simp only [Node.fragments, hbefore, hbehind]
            rfl
          · rw [OperatorTree.first, OperatorTree.links, chainText_append, ← htextBefore,
              ← htextBehind]
            simp [Fragment.textOf, Fragment.text, String.join_append, String.append_assoc]

theorem toSource (h : t.Shows id tree) :
    t.toSource id = .ok (chainText tree.first tree.links) := by
  rcases h.fragments (Nat.lt_succ_of_lt h.index_lt) 0 with ⟨fragments, hfragments, htext⟩
  show (t.fragmentsWithin t.budget 0 id).map Fragment.textOf = _
  rw [show t.fragmentsWithin t.budget 0 id = .ok fragments from hfragments, ← htext]
  rfl

end SyntaxTree.Shows

end Syntax
end ScriptHints
