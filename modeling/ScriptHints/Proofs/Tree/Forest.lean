import Mathlib
import ScriptHints.Proofs.Syntax.Growth

/-!
# Forests

The nodes that a reading adds to a tree form a forest: trees that stand side by side until a
later node adopts them. A forest knows for every node its id, the tokens that it was read
from, the nodes below it and the nodes to the right of it. What a forest says about ids and
parents is compared here with the entries of a syntax tree.
-/

namespace ScriptHints
namespace Syntax

inductive Forest where
  | nil
  /-- A node for the tokens from `first` up to, but without, `stop`. -/
  | node (id : NodeId) (node : Node) (first stop : Nat) (below more : Forest)

namespace Forest

/-!
## Orders of the nodes
-/

def append : Forest → Forest → Forest
  | .nil, g => g
  | .node id n first stop below more, g => .node id n first stop below (more.append g)

instance : Append Forest :=
  ⟨append⟩

def tree (id : NodeId) (n : Node) (first stop : Nat) (below : Forest) : Forest :=
  .node id n first stop below .nil

def roots : Forest → List NodeId
  | .nil => []
  | .node id _ _ _ _ more => id :: more.roots

def rootNodes : Forest → List Node
  | .nil => []
  | .node _ n _ _ _ more => n :: more.rootNodes

def preOrder : Forest → List NodeId
  | .nil => []
  | .node id _ _ _ below more => id :: (below.preOrder ++ more.preOrder)

def postOrder : Forest → List NodeId
  | .nil => []
  | .node id _ _ _ below more => below.postOrder ++ id :: more.postOrder

theorem node_append (id : NodeId) (n : Node) (first stop : Nat) (below more g : Forest) :
    node id n first stop below more ++ g = node id n first stop below (more ++ g) := rfl

theorem append_nil (f : Forest) : f ++ nil = f := by
  induction f with
  | nil => rfl
  | node id n first stop below more _ ih => rw [node_append, ih]

@[simp] theorem roots_append (f g : Forest) : (f ++ g).roots = f.roots ++ g.roots := by
  induction f with
  | nil => rfl
  | node id n first stop below more _ ih => rw [node_append, roots, ih, roots, List.cons_append]

@[simp] theorem rootNodes_append (f g : Forest) :
    (f ++ g).rootNodes = f.rootNodes ++ g.rootNodes := by
  induction f with
  | nil => rfl
  | node id n first stop below more _ ih =>
      rw [node_append, rootNodes, ih, rootNodes, List.cons_append]

theorem length_roots (f : Forest) : f.roots.length = f.rootNodes.length := by
  induction f with
  | nil => rfl
  | node id n first stop below more _ ih => rw [roots, rootNodes, List.length_cons, ih]; rfl

theorem postOrder_append (f g : Forest) : (f ++ g).postOrder = f.postOrder ++ g.postOrder := by
  induction f with
  | nil => rfl
  | node id n first stop below more _ ih =>
      rw [node_append, postOrder, ih, postOrder, List.append_assoc, List.cons_append]

theorem postOrder_tree (id : NodeId) (n : Node) (first stop : Nat) (below : Forest) :
    (tree id n first stop below).postOrder = below.postOrder ++ [id] := rfl

/-- A node stands somewhere in a forest, with the nodes below it. -/
inductive Occurs (id : NodeId) (n : Node) (first stop : Nat) (below : Forest) : Forest → Prop where
  | here (more : Forest) : Occurs id n first stop below (.node id n first stop below more)
  | inside {id' : NodeId} {n' : Node} {first' stop' : Nat} {below' more : Forest}
      (h : Occurs id n first stop below below') :
      Occurs id n first stop below (.node id' n' first' stop' below' more)
  | beside {id' : NodeId} {n' : Node} {first' stop' : Nat} {below' more : Forest}
      (h : Occurs id n first stop below more) :
      Occurs id n first stop below (.node id' n' first' stop' below' more)

theorem exists_occurs {f : Forest} {id : NodeId} (h : id ∈ f.postOrder) :
    exists n first stop below, Occurs id n first stop below f := by
  induction f with
  | nil => cases h
  | node id' n first stop below more ihBelow ihMore =>
      rcases List.mem_append.mp h with hin | hin
      · rcases ihBelow hin with ⟨n', first', stop', below', hoccurs⟩
        exact ⟨n', first', stop', below', .inside hoccurs⟩
      · rcases List.mem_cons.mp hin with hhere | hin
        · rw [hhere]
          exact ⟨n, first, stop, below, .here more⟩
        · rcases ihMore hin with ⟨n', first', stop', below', hoccurs⟩
          exact ⟨n', first', stop', below', .beside hoccurs⟩

theorem Occurs.below_sublist {f below : Forest} {id : NodeId} {n : Node} {first stop : Nat}
    (h : Occurs id n first stop below f) : below.postOrder.Sublist f.postOrder := by
  induction h with
  | here more => exact List.sublist_append_left _ _
  | inside _ ih => exact ih.trans (List.sublist_append_left _ _)
  | beside _ ih =>
      exact ih.trans ((List.sublist_cons_self _ _).trans (List.sublist_append_right _ _))

theorem roots_sublist_postOrder (f : Forest) : f.roots.Sublist f.postOrder := by
  induction f with
  | nil => exact List.Sublist.refl _
  | node id n first stop below more _ ih =>
      exact (ih.cons_cons id).trans (List.sublist_append_right _ _)

/-!
## Forests of a syntax tree

The spans of the nodes are those of their tokens, so the way to find the span of some
tokens is left open here.
-/

/-- The nodes of a forest are entries of a tree; its roots have a common parent. -/
def In (spanOf : Nat → Nat → Span) (t : SyntaxTree) : Option NodeId → Forest → Prop
  | _, .nil => True
  | parent, .node id n first stop below more =>
      t.get? id = some { node := n, span := spanOf first stop, parent := parent } ∧
        n.children = below.roots ∧ below.In spanOf t (some id) ∧ more.In spanOf t parent

variable {spanOf : Nat → Nat → Span} {t t' : SyntaxTree} {parent : Option NodeId}

theorem In.append {f g : Forest} (hf : f.In spanOf t parent) (hg : g.In spanOf t parent) :
    (f ++ g).In spanOf t parent := by
  induction f with
  | nil => exact hg
  | node id n first stop below more _ ih =>
      rcases hf with ⟨hentry, hchildren, hbelow, hmore⟩
      exact ⟨hentry, hchildren, hbelow, ih hmore⟩

theorem In.congr {f : Forest} (h : f.In spanOf t parent)
    (hsame : forall id, id ∈ f.postOrder -> t'.get? id = t.get? id) : f.In spanOf t' parent := by
  induction f generalizing parent with
  | nil => trivial
  | node id n first stop below more ihBelow ihMore =>
      rcases h with ⟨hentry, hchildren, hbelow, hmore⟩
      refine ⟨?_, hchildren, ihBelow hbelow ?_, ihMore hmore ?_⟩
      · rw [hsame id (by simp [postOrder]), hentry]
      · intro id' hid'
        exact hsame id' (List.mem_append_left _ hid')
      · intro id' hid'
        exact hsame id' (List.mem_append_right _ (List.mem_cons_of_mem _ hid'))

theorem In.index_lt {f : Forest} (h : f.In spanOf t parent) {id : NodeId}
    (hid : id ∈ f.postOrder) : id.index < t.size := by
  induction f generalizing parent with
  | nil => cases hid
  | node id' n first stop below more ihBelow ihMore =>
      rcases h with ⟨hentry, _, hbelow, hmore⟩
      rcases List.mem_append.mp hid with hin | hin
      · exact ihBelow hbelow hin
      · rcases List.mem_cons.mp hin with hhere | hin
        · rw [hhere]
          exact SyntaxTree.index_lt_of_get? hentry
        · exact ihMore hmore hin

theorem In.occurs {f below : Forest} (h : f.In spanOf t parent) {id : NodeId} {n : Node}
    {first stop : Nat} (hoccurs : Occurs id n first stop below f) :
    (exists above, t.get? id = some { node := n, span := spanOf first stop, parent := above }) ∧
      n.children = below.roots ∧ below.In spanOf t (some id) := by
  induction hoccurs generalizing parent with
  | here more =>
      rcases h with ⟨hentry, hchildren, hbelow, _⟩
      exact ⟨⟨parent, hentry⟩, hchildren, hbelow⟩
  | inside _ ih =>
      rcases h with ⟨_, _, hbelow, _⟩
      exact ih hbelow
  | beside _ ih =>
      rcases h with ⟨_, _, _, hmore⟩
      exact ih hmore

theorem get?_add_of_not_mem {node : Node} {span : Span} {id : NodeId}
    (hid : id.index < t.size) (hnot : id ∉ node.children) :
    (t.add node span).get? id = t.get? id := by
  have hne : id ≠ t.nextId := by
    intro heq
    rw [heq] at hid
    exact Nat.lt_irrefl _ hid
  rw [SyntaxTree.get?_add, if_neg hne]
  cases t.get? id with
  | none => rfl
  | some entry =>
      show some (entry.adoptedBy id t.nextId node) = _
      unfold Entry.adoptedBy
      rw [if_neg hnot]

/-- An added node becomes the parent of the roots and of no other node of a forest. -/
theorem In.adopted {f : Forest} (h : f.In spanOf t none) (hnodup : f.postOrder.Nodup)
    {node : Node} (span : Span) (hroots : forall id, id ∈ f.roots -> id ∈ node.children)
    (hothers : forall id, id ∈ node.children -> id ∈ f.postOrder -> id ∈ f.roots) :
    f.In spanOf (t.add node span) (some t.nextId) := by
  induction f with
  | nil => trivial
  | node id n first stop below more ihBelow ihMore =>
      rcases h with ⟨hentry, hchildren, hbelow, hmore⟩
      rcases List.nodup_append.mp hnodup with ⟨_, hrest, hdistinct⟩
      rcases List.nodup_cons.mp hrest with ⟨hnotMore, hnodupMore⟩
      refine ⟨?_, hchildren, ?_, ?_⟩
      · have hne : id ≠ t.nextId := by
          intro heq
          rw [heq, SyntaxTree.get?_nextId] at hentry
          cases hentry
        rw [SyntaxTree.get?_add, if_neg hne, hentry]
        show some (Entry.adoptedBy _ id t.nextId node) = _
        unfold Entry.adoptedBy
        rw [if_pos (hroots id List.mem_cons_self)]
      · apply hbelow.congr
        intro id' hid'
        apply get?_add_of_not_mem (hbelow.index_lt hid')
        intro hchild
        -- A child below this node would be a root as well, and come twice.
        have hin : id' ∈ (Forest.node id n first stop below more).postOrder :=
          List.mem_append_left _ hid'
        rcases List.mem_cons.mp (hothers id' hchild hin) with hhere | hroot
        · exact hdistinct id' hid' id List.mem_cons_self hhere
        · exact hdistinct id' hid' id'
            (List.mem_cons_of_mem _ (more.roots_sublist_postOrder.subset hroot)) rfl
      · apply ihMore hmore hnodupMore
        · intro id' hid'
          exact hroots id' (List.mem_cons_of_mem _ hid')
        · intro id' hchild hid'
          have hin : id' ∈ (Forest.node id n first stop below more).postOrder :=
            List.mem_append_right _ (List.mem_cons_of_mem _ hid')
          rcases List.mem_cons.mp (hothers id' hchild hin) with hhere | hroot
          · rw [hhere] at hid'
            exact absurd hid' hnotMore
          · exact hroot

end Forest

/-!
## Ids in the order of addition
-/

def idsBetween (first stop : Nat) : List NodeId :=
  (List.range' first (stop - first)).map NodeId.mk

theorem mem_idsBetween_iff {first stop : Nat} {id : NodeId} :
    id ∈ idsBetween first stop ↔ first ≤ id.index ∧ id.index < stop := by
  unfold idsBetween
  rw [List.mem_map]
  constructor
  · rintro ⟨index, hindex, rfl⟩
    have hrange := List.mem_range'_1.mp hindex
    have hfirst : first ≤ index := hrange.1
    have hstop : index < stop := by omega
    exact ⟨hfirst, hstop⟩
  · rintro ⟨hfirst, hstop⟩
    refine ⟨id.index, List.mem_range'_1.mpr ⟨hfirst, ?_⟩, rfl⟩
    omega

theorem idsBetween_self (first : Nat) : idsBetween first first = [] := by
  simp [idsBetween]

theorem idsBetween_append {first middle stop : Nat} (h : first ≤ middle) (h' : middle ≤ stop) :
    idsBetween first middle ++ idsBetween middle stop = idsBetween first stop := by
  rcases Nat.exists_eq_add_of_le h with ⟨m, hm⟩
  rcases Nat.exists_eq_add_of_le h' with ⟨n, hn⟩
  unfold idsBetween
  rw [← List.map_append, hn, hm, Nat.add_sub_cancel_left, Nat.add_sub_cancel_left,
    List.range'_append_1, Nat.add_assoc, Nat.add_sub_cancel_left]

theorem idsBetween_succ {first stop : Nat} (h : first ≤ stop) :
    idsBetween first (stop + 1) = idsBetween first stop ++ [⟨stop⟩] := by
  rw [← idsBetween_append h (Nat.le_succ stop)]
  simp [idsBetween]

theorem nodup_idsBetween (first stop : Nat) : (idsBetween first stop).Nodup := by
  unfold idsBetween
  apply List.Nodup.map
  · intro i j hij
    exact congrArg NodeId.index hij
  · exact List.nodup_range'

theorem sorted_idsBetween (first stop : Nat) :
    (idsBetween first stop).Pairwise fun a b => a.index < b.index := by
  unfold idsBetween
  rw [List.pairwise_map]
  exact List.pairwise_lt_range'

end Syntax
end ScriptHints
