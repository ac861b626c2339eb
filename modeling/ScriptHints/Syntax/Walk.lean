import ScriptHints.Syntax.Basic

/-!
# Walks through a tree

Downwards in the order of the text, upwards to the root, and inwards to the node at a
position. A path that visits more nodes than the tree has goes in a circle, so every walk
has a budget of that many steps in one direction; running out of it is a fault.
-/

namespace ScriptHints
namespace Syntax
namespace SyntaxTree

/-- The number of nodes on the longest path without a circle. -/
def budget (t : SyntaxTree) : Nat :=
  t.size + 1

/-!
## Downwards

The nodes to visit wait on a stack, each with the budget left for its own descendants. A
visited node makes room for its children. With more weight on an entry than on all
children it can have together, every step makes the stack lighter.
-/

def maxArity (t : SyntaxTree) : Nat :=
  t.entries.foldl (fun most entry => max most entry.node.children.length) 0

def stackWeight (arity : Nat) : List (Nat × NodeId) → Nat
  | [] => 0
  | (b, _) :: stack => Nat.pow (arity + 1) b + stackWeight arity stack

/-- The greatest of some numbers is at least each of them. -/
theorem le_foldl_max (f : α → Nat) (list : List α) (start : Nat) :
    start ≤ list.foldl (fun most a => max most (f a)) start ∧
      forall a, a ∈ list -> f a ≤ list.foldl (fun most a => max most (f a)) start := by
  induction list generalizing start with
  | nil => exact ⟨Nat.le_refl _, fun _ h => absurd h List.not_mem_nil⟩
  | cons b list ih =>
      rcases ih (max start (f b)) with ⟨hgrows, hcovers⟩
      constructor
      · exact Nat.le_trans (Nat.le_max_left _ _) hgrows
      · intro a ha
        rcases List.mem_cons.mp ha with rfl | htail
        · exact Nat.le_trans (Nat.le_max_right _ _) hgrows
        · exact hcovers a htail

theorem length_children_le_maxArity {t : SyntaxTree} {id : NodeId} {children : List NodeId}
    (h : t.children id = .ok children) : children.length ≤ t.maxArity := by
  unfold SyntaxTree.children SyntaxTree.node SyntaxTree.entry SyntaxTree.get? at h
  unfold maxArity
  rw [← Array.foldl_toList]
  cases found : t.entries[id.index]? with
  | none =>
      rw [found] at h
      cases h
  | some entry =>
      rw [found] at h
      cases h
      have member : entry ∈ t.entries.toList :=
        Array.mem_toList_iff.mpr (Array.mem_of_getElem? found)
      exact (le_foldl_max (fun e : Entry => e.node.children.length) _ 0).2 entry member

theorem stackWeight_append (arity b : Nat) (children : List NodeId)
    (stack : List (Nat × NodeId)) :
    stackWeight arity (children.map (b, ·) ++ stack) =
      children.length * Nat.pow (arity + 1) b + stackWeight arity stack := by
  induction children with
  | nil => simp
  | cons child children ih =>
      simp only [List.map_cons, List.cons_append, stackWeight, ih, List.length_cons, Nat.succ_mul]
      omega

theorem stackWeight_visit_lt {arity b : Nat} {id : NodeId} {children : List NodeId}
    (few : children.length ≤ arity) (stack : List (Nat × NodeId)) :
    stackWeight arity (children.map (b, ·) ++ stack) < stackWeight arity
    ((b + 1, id) :: stack) := by
  have one : 0 < Nat.pow (arity + 1) b := Nat.pow_pos (Nat.succ_pos arity)
  have room : children.length * Nat.pow (arity + 1) b ≤ arity * Nat.pow (arity + 1) b :=
    Nat.mul_le_mul_right _ few
  have grown : Nat.pow (arity + 1) (b + 1) =
      arity * Nat.pow (arity + 1) b + Nat.pow (arity + 1) b :=
    (Nat.mul_comm _ _).trans (Nat.succ_mul _ _)
  rw [stackWeight_append, stackWeight, grown]
  omega

/-- The nodes on the stack, each followed by its descendants. -/
def visit (t : SyntaxTree) : List (Nat × NodeId) → Except TreeFault (List NodeId)
  | [] => .ok []
  | (0, _) :: _ => .error .endless
  | (b + 1, id) :: stack =>
      match _h : t.children id with
      | .error fault => .error fault
      | .ok children => (t.visit (children.map (b, ·) ++ stack)).map (id :: ·)
termination_by stack => stackWeight t.maxArity stack
decreasing_by exact stackWeight_visit_lt (length_children_le_maxArity _h) stack

/-- A node and all nodes below it, every node before its children. -/
def descendants (t : SyntaxTree) (id : NodeId) : Except TreeFault (List NodeId) :=
  t.visit [(t.budget, id)]

/-!
## Upwards
-/

def ancestorsWithin (t : SyntaxTree) : Nat → NodeId → Except TreeFault (List NodeId)
  | 0, _ => .error .endless
  | b + 1, id =>
      match t.parent id with
      | .error fault => .error fault
      | .ok none => .ok [id]
      | .ok (some parent) => (t.ancestorsWithin b parent).map (id :: ·)

/-- A node and all nodes above it, the nearest first. -/
def ancestors (t : SyntaxTree) (id : NodeId) : Except TreeFault (List NodeId) :=
  t.ancestorsWithin t.budget id

/-!
## Inwards
-/

/-- The first of the nodes whose span covers the position. -/
def findCovering (t : SyntaxTree) (line column : Nat) :
    List NodeId → Except TreeFault (Option NodeId)
  | [] => .ok none
  | id :: ids =>
      match t.span id with
      | .error fault => .error fault
      | .ok span =>
          if span.contains line column then .ok (some id) else t.findCovering line column ids

def innermostWithin (t : SyntaxTree) (line column : Nat) :
    Nat → NodeId → Except TreeFault NodeId
  | 0, _ => .error .endless
  | b + 1, id =>
      match t.children id with
      | .error fault => .error fault
      | .ok children =>
          match t.findCovering line column children with
          | .error fault => .error fault
          | .ok none => .ok id
          | .ok (some child) => t.innermostWithin line column b child

/-- The innermost node below the root whose span covers the position. -/
def nodeAt (t : SyntaxTree) (line column : Nat) : Except TreeFault (Option NodeId) :=
  match t.root with
  | none => .ok none
  | some root =>
      match t.findCovering line column [root] with
      | .error fault => .error fault
      | .ok none => .ok none
      | .ok (some id) => (t.innermostWithin line column t.budget id).map some

end SyntaxTree
end Syntax
end ScriptHints
