import ScriptHints.Syntax.Walk
import ScriptHints.Proofs.Tree.Parsed

/-!
# The shape of parsed trees

A node of a parsed tree has just one parent, which is the parent that the tree tells, and it
is younger than all nodes below it. A strict reading leaves no node behind that the root
does not reach.
-/

namespace ScriptHints
namespace Syntax

namespace SyntaxTree

def IsChild (t : SyntaxTree) (id child : NodeId) : Prop :=
  exists children, t.children id = .ok children ∧ child ∈ children

/-- A walk downwards leads from one node to another. -/
def Reaches (t : SyntaxTree) : NodeId → NodeId → Prop :=
  Relation.ReflTransGen t.IsChild

def postOrderWithin (t : SyntaxTree) : Nat → NodeId → Except TreeFault (List NodeId)
  | 0, _ => .error .endless
  | b + 1, id => do
      let children ← t.children id
      let below ← children.mapM (t.postOrderWithin b)
      return below.flatten ++ [id]

def postOrder (t : SyntaxTree) (id : NodeId) : Except TreeFault (List NodeId) :=
  t.postOrderWithin t.budget id

theorem children_of_get? {t : SyntaxTree} {id : NodeId} {entry : Entry}
    (h : t.get? id = some entry) : t.children id = .ok entry.node.children := by
  unfold children node SyntaxTree.entry
  rw [h]
  rfl

theorem node_of_get? {t : SyntaxTree} {id : NodeId} {entry : Entry}
    (h : t.get? id = some entry) : t.node id = .ok entry.node := by
  unfold node SyntaxTree.entry
  rw [h]
  rfl

theorem span_of_get? {t : SyntaxTree} {id : NodeId} {entry : Entry}
    (h : t.get? id = some entry) : t.span id = .ok entry.span := by
  unfold span SyntaxTree.entry
  rw [h]
  rfl

theorem parent_of_get? {t : SyntaxTree} {id : NodeId} {entry : Entry}
    (h : t.get? id = some entry) : t.parent id = .ok entry.parent := by
  unfold parent SyntaxTree.entry
  rw [h]
  rfl

theorem index_lt_of_parent {t : SyntaxTree} {id : NodeId} {above : Option NodeId}
    (h : t.parent id = .ok above) : id.index < t.size := by
  unfold parent SyntaxTree.entry at h
  cases hentry : t.get? id with
  | none =>
      rw [hentry] at h
      cases h
  | some entry => exact index_lt_of_get? hentry

theorem index_lt_of_isChild {t : SyntaxTree} {id child : NodeId} (h : t.IsChild id child) :
    id.index < t.size := by
  rcases h with ⟨ids, hids, _⟩
  unfold children node SyntaxTree.entry at hids
  cases hentry : t.get? id with
  | none =>
      rw [hentry] at hids
      cases hids
  | some entry => exact index_lt_of_get? hentry

end SyntaxTree

namespace Forest

variable {spanOf : Nat → Nat → Span} {t : SyntaxTree} {parent : Option NodeId}

theorem In.parent_of_mem_roots {f : Forest} (h : f.In spanOf t parent) {id : NodeId}
    (hid : id ∈ f.roots) : t.parent id = .ok parent := by
  induction f with
  | nil => cases hid
  | node id' n first stop below more _ ih =>
      rcases h with ⟨hentry, _, _, hmore⟩
      rcases List.mem_cons.mp hid with hhere | hin
      · rw [hhere]
        exact SyntaxTree.parent_of_get? hentry
      · exact ih hmore hin

theorem In.root_or_child {f : Forest} (h : f.In spanOf t parent) {id : NodeId}
    (hid : id ∈ f.postOrder) :
    id ∈ f.roots ∨ exists above, above ∈ f.postOrder ∧ t.IsChild above id := by
  induction f generalizing parent with
  | nil => cases hid
  | node id' n first stop below more ihBelow ihMore =>
      rcases h with ⟨hentry, hchildren, hbelow, hmore⟩
      rcases List.mem_append.mp hid with hin | hin
      · right
        rcases ihBelow hbelow hin with hroot | ⟨above, habove, hchild⟩
        · refine ⟨id', List.mem_append_right _ List.mem_cons_self, n.children, ?_, ?_⟩
          · exact SyntaxTree.children_of_get? hentry
          · rw [hchildren]
            exact hroot
        · exact ⟨above, List.mem_append_left _ habove, hchild⟩
      · rcases List.mem_cons.mp hin with hhere | hin
        · rw [hhere]
          exact .inl List.mem_cons_self
        · rcases ihMore hmore hin with hroot | ⟨above, habove, hchild⟩
          · exact .inl (List.mem_cons_of_mem _ hroot)
          · exact .inr ⟨above, List.mem_append_right _ (List.mem_cons_of_mem _ habove), hchild⟩

/-- The children of a node stand once each in the forest, and know their parent. -/
theorem In.exists_children {f : Forest} (h : f.In spanOf t parent) {id : NodeId}
    (hid : id ∈ f.postOrder) :
    exists children, t.children id = .ok children ∧ children.Sublist f.postOrder ∧
      forall child, child ∈ children -> t.parent child = .ok (some id) := by
  rcases exists_occurs hid with ⟨n, first, stop, below, hoccurs⟩
  rcases h.occurs hoccurs with ⟨⟨above, hentry⟩, hchildren, hbelow⟩
  refine ⟨below.roots, ?_, ?_, fun child hchild => hbelow.parent_of_mem_roots hchild⟩
  · rw [← hchildren]
    exact SyntaxTree.children_of_get? hentry
  · exact below.roots_sublist_postOrder.trans hoccurs.below_sublist

theorem In.mem_of_isChild {f : Forest} (h : f.In spanOf t parent) {id child : NodeId}
    (hid : id ∈ f.postOrder) (hchild : t.IsChild id child) :
    child ∈ f.postOrder ∧ t.parent child = .ok (some id) := by
  rcases h.exists_children hid with ⟨children, hchildren, hsublist, hparent⟩
  rcases hchild with ⟨children', hchildren', hmem⟩
  rw [hchildren] at hchildren'
  cases hchildren'
  exact ⟨hsublist.subset hmem, hparent child hmem⟩

theorem In.mem_of_reaches {f : Forest} (h : f.In spanOf t parent) {id id' : NodeId}
    (hid : id ∈ f.postOrder) (hreaches : t.Reaches id id') : id' ∈ f.postOrder := by
  induction hreaches with
  | refl => exact hid
  | tail _ hchild ih => exact (h.mem_of_isChild ih hchild).1

theorem In.reaches {f : Forest} (h : f.In spanOf t parent) {id : NodeId}
    (hid : id ∈ f.postOrder) : exists root, root ∈ f.roots ∧ t.Reaches root id := by
  induction f generalizing parent with
  | nil => cases hid
  | node id' n first stop below more ihBelow ihMore =>
      rcases h with ⟨hentry, hchildren, hbelow, hmore⟩
      rcases List.mem_append.mp hid with hin | hin
      · rcases ihBelow hbelow hin with ⟨root, hroot, hreaches⟩
        have hchild : t.IsChild id' root := by
          refine ⟨n.children, SyntaxTree.children_of_get? hentry, ?_⟩
          rw [hchildren]
          exact hroot
        exact ⟨id', List.mem_cons_self, .head hchild hreaches⟩
      · rcases List.mem_cons.mp hin with hhere | hin
        · rw [hhere]
          exact ⟨id', List.mem_cons_self, .refl⟩
        · rcases ihMore hmore hin with ⟨root, hroot, hreaches⟩
          exact ⟨root, List.mem_cons_of_mem _ hroot, hreaches⟩

theorem In.postOrderWithin {f : Forest} (h : f.In spanOf t parent) (b : Nat)
    (hbudget : f.postOrder.length ≤ b) :
    exists orders, f.roots.mapM (t.postOrderWithin b) = .ok orders ∧
      orders.flatten = f.postOrder := by
  induction f generalizing parent b with
  | nil => exact ⟨[], rfl, rfl⟩
  | node id n first stop below more ihBelow ihMore =>
      rcases h with ⟨hentry, hchildren, hbelow, hmore⟩
      have hlength : below.postOrder.length + (more.postOrder.length + 1) ≤ b := by
        rw [← List.length_cons, ← List.length_append]
        exact hbudget
      rcases (⟨b - 1, by omega⟩ : exists b', b = b' + 1) with ⟨b, rfl⟩
      rcases ihBelow hbelow b (by omega) with ⟨inside, hinside, hflatten⟩
      rcases ihMore hmore (b + 1) (by omega) with ⟨beside, hbeside, hflatten'⟩
      have hhere : t.postOrderWithin (b + 1) id = .ok (below.postOrder ++ [id]) := by
        unfold SyntaxTree.postOrderWithin
        rw [SyntaxTree.children_of_get? hentry, hchildren, ← hflatten]
        show (below.roots.mapM (t.postOrderWithin b) >>= fun inside => _) = _
        rw [hinside]
        rfl
      refine ⟨(below.postOrder ++ [id]) :: beside, ?_, ?_⟩
      · rw [roots, List.mapM_cons, hhere, hbeside]
        rfl
      · rw [List.flatten_cons, hflatten', List.append_assoc]
        rfl

end Forest

end Syntax

namespace Grammar

open Syntax Token

theorem Whole.length_le_budget {c : Context} {tree : SyntaxTree} {root : NodeId} {f : Forest}
    (h : Whole c tree root f) : f.postOrder.length ≤ tree.budget := by
  have hle := h.ordered.length_le
  rw [idsBetween, List.length_map, List.length_range'] at hle
  unfold SyntaxTree.budget
  omega

theorem Whole.postOrder {c : Context} {tree : SyntaxTree} {root : NodeId} {f : Forest}
    (h : Whole c tree root f) : tree.postOrder root = .ok f.postOrder := by
  rcases h.entries.postOrderWithin tree.budget h.length_le_budget with ⟨orders, horders, hflatten⟩
  rw [h.roots, List.mapM_cons] at horders
  unfold SyntaxTree.postOrder
  cases heq : tree.postOrderWithin tree.budget root with
  | error fault =>
      rw [heq] at horders
      cases horders
  | ok order =>
      rw [heq] at horders
      cases horders
      rw [← hflatten]
      simp

theorem Whole.mem_iff_reaches {c : Context} {tree : SyntaxTree} {root : NodeId} {f : Forest}
    (h : Whole c tree root f) (id : NodeId) : id ∈ f.postOrder ↔ tree.Reaches root id := by
  constructor
  · intro hid
    rcases h.entries.reaches hid with ⟨root', hroot, hreaches⟩
    rw [h.roots, List.mem_singleton] at hroot
    rw [← hroot]
    exact hreaches
  · intro hreaches
    have hroot : root ∈ f.postOrder := by
      apply f.roots_sublist_postOrder.subset
      rw [h.roots]
      exact List.mem_cons_self
    exact h.entries.mem_of_reaches hroot hreaches

/--
The nodes that the root of a parsed tree reaches are ordered by their ids when every node is
listed behind its children. The root has no parent, and every other node is once the child
of one node, which is its parent. Without recovery there are no other nodes.
-/
theorem parsed_tree_shape (text : String) (o : Options) (tree : SyntaxTree)
    (h : Parses text o tree) :
    exists root order, tree.root = some root ∧ tree.postOrder root = .ok order ∧
      (order.Pairwise fun id id' => id.index < id'.index) ∧
      (forall id, id ∈ order ↔ tree.Reaches root id) ∧
      tree.parent root = .ok none ∧
      (forall id, tree.Reaches root id -> id ≠ root ->
        exists parent children, tree.Reaches root parent ∧ tree.parent id = .ok (some parent) ∧
          tree.children parent = .ok children ∧ children.count id = 1 ∧
          forall other, tree.Reaches root other -> tree.IsChild other id -> other = parent) ∧
      (o.recover = false -> order = idsBetween 0 tree.size) := by
  rcases whole_of_parses h with ⟨stream, root, f, _, hwhole⟩
  have hnodup : f.postOrder.Nodup := hwhole.ordered.nodup (nodup_idsBetween _ _)
  have hsorted := (sorted_idsBetween 0 tree.size).sublist hwhole.ordered
  refine ⟨root, f.postOrder, hwhole.top, hwhole.postOrder, hsorted, hwhole.mem_iff_reaches, ?_, ?_,
    hwhole.whole⟩
  · apply hwhole.entries.parent_of_mem_roots
    rw [hwhole.roots]
    exact List.mem_cons_self
  · intro id hreaches hne
    have hid := (hwhole.mem_iff_reaches id).mpr hreaches
    rcases hwhole.entries.root_or_child hid with hroot | ⟨parent, hparent, hchild⟩
    · rw [hwhole.roots, List.mem_singleton] at hroot
      exact absurd hroot hne
    have htold := (hwhole.entries.mem_of_isChild hparent hchild).2
    rcases hwhole.entries.exists_children hparent with ⟨children, hchildren, hsublist, _⟩
    rcases hchild with ⟨children', hchildren', hmem⟩
    rw [hchildren] at hchildren'
    cases hchildren'
    refine ⟨parent, children, (hwhole.mem_iff_reaches parent).mp hparent, htold, hchildren, ?_, ?_⟩
    · exact List.count_eq_one_of_mem (hsublist.nodup hnodup) hmem
    · intro other hother hchild
      have htold' := (hwhole.entries.mem_of_isChild ((hwhole.mem_iff_reaches other).mpr hother)
        hchild).2
      rw [htold] at htold'
      cases htold'
      rfl

theorem parsed_tree_shape_construction :
    exists root order, constructionTree.root = some root ∧
      constructionTree.postOrder root = .ok order ∧
      (order.Pairwise fun id id' => id.index < id'.index) ∧
      (forall id, id ∈ order ↔ constructionTree.Reaches root id) ∧
      constructionTree.parent root = .ok none ∧
      (forall id, constructionTree.Reaches root id -> id ≠ root ->
        exists parent children, constructionTree.Reaches root parent ∧
          constructionTree.parent id = .ok (some parent) ∧
          constructionTree.children parent = .ok children ∧ children.count id = 1 ∧
          forall other, constructionTree.Reaches root other -> constructionTree.IsChild other id ->
            other = parent) ∧
      order = idsBetween 0 constructionTree.size := by
  rcases parsed_tree_shape "new a.b(c)" .strict constructionTree parses_construction with
    ⟨root, order, hroot, horder, hsorted, hreaches, hparent, hadopted, hwhole⟩
  exact ⟨root, order, hroot, horder, hsorted, hreaches, hparent, hadopted, hwhole rfl⟩

end Grammar
end ScriptHints
