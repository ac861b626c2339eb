import ScriptHints.Proofs.Tree.Innermost
import ScriptHints.Proofs.Tree.Walks

/-!
# Ways down to a node

From the root of a parsed tree just one way leads down to a node. The walk upwards from the node
is this way backwards, even where the tree has nodes that the root does not reach.
-/

namespace ScriptHints
namespace Syntax

inductive SyntaxTree.Path (t : SyntaxTree) (root : NodeId) : NodeId → List NodeId → Prop where
  | root : t.Path root root [root]
  | child {id child : NodeId} {path : List NodeId} :
      t.Path root id path -> t.IsChild id child -> t.Path root child (path ++ [child])

namespace SyntaxTree

variable {t : SyntaxTree} {root id : NodeId} {path : List NodeId}

theorem Path.reaches (h : t.Path root id path) : t.Reaches root id := by
  induction h with
  | root => exact .refl
  | child _ hchild ih => exact ih.tail hchild

theorem exists_path (h : t.Reaches root id) : exists path, t.Path root id path := by
  induction h with
  | refl => exact ⟨[root], .root⟩
  | tail _ hchild ih =>
      rcases ih with ⟨path, hpath⟩
      exact ⟨_, hpath.child hchild⟩

/-- All nodes of a way but the root are children of nodes that the root reaches. -/
theorem Path.exists_below (h : t.Path root id path) :
    exists below, path = root :: below ∧
      forall other, other ∈ below -> exists above, t.Reaches root above ∧
      t.IsChild above other := by
  induction h with
  | root => exact ⟨[], rfl, nofun⟩
  | @child id child path hpath hchild ih =>
      rcases ih with ⟨below, rfl, hbelow⟩
      refine ⟨below ++ [child], rfl, ?_⟩
      intro other hother
      rcases List.mem_append.mp hother with hin | hlast
      · exact hbelow other hin
      · rw [List.mem_singleton.mp hlast]
        exact ⟨id, hpath.reaches, hchild⟩

theorem Path.reaches_of_mem (h : t.Path root id path) {other : NodeId} (hmem : other ∈ path) :
    t.Reaches root other := by
  rcases h.exists_below with ⟨below, rfl, hbelow⟩
  rcases List.mem_cons.mp hmem with rfl | hin
  · exact .refl
  · rcases hbelow other hin with ⟨above, hreaches, hchild⟩
    exact hreaches.tail hchild

theorem Path.eq_reverse {spanOf : Nat → Nat → Span} {f : Forest} {parent : Option NodeId}
    (hin : f.In spanOf t parent) (hroot : root ∈ f.postOrder) (htop : t.parent root = .ok none)
    (h : t.Path root id path) {b : Nat} {up : List NodeId}
    (hup : t.ancestorsWithin b id = .ok up) : up = path.reverse := by
  induction h generalizing b up with
  | root =>
      rcases Grammar.ancestorsWithin_ok hup with ⟨_, rfl⟩ | ⟨above, _, _, habove, _, _⟩
      · rfl
      · rw [htop] at habove
        cases habove
  | child hpath hchild ih =>
      have hparent := (hin.mem_of_isChild (hin.mem_of_reaches hroot hpath.reaches) hchild).2
      rcases Grammar.ancestorsWithin_ok hup with ⟨hnone, _⟩ | ⟨above, b', rest, habove, hrest, rfl⟩
      · rw [hparent] at hnone
        cases hnone
      · rw [hparent] at habove
        cases habove
        rw [ih hrest, List.reverse_append]
        rfl

end SyntaxTree

end Syntax

namespace Grammar

open Syntax

variable {c : Context} {tree : SyntaxTree} {root : NodeId} {f : Forest}

theorem Whole.root_mem (h : Whole c tree root f) : root ∈ f.postOrder :=
  (h.mem_iff_reaches root).mpr .refl

theorem Whole.parent_root (h : Whole c tree root f) : tree.parent root = .ok none := by
  apply h.entries.parent_of_mem_roots
  rw [h.roots]
  exact List.mem_cons_self

theorem Whole.ancestors_of_path (h : Whole c tree root f) {id : NodeId} {path : List NodeId}
    (hpath : tree.Path root id path) : tree.ancestors id = .ok path.reverse := by
  have hmem := (h.mem_iff_reaches id).mpr hpath.reaches
  rcases h.sound.ancestors_yields (h.entries.index_lt hmem) with ⟨up, hup, _⟩
  rw [hup, hpath.eq_reverse h.entries h.root_mem h.parent_root hup]

theorem Whole.path_unique (h : Whole c tree root f) {id : NodeId} {path path' : List NodeId}
    (hpath : tree.Path root id path) (hpath' : tree.Path root id path') : path' = path := by
  have hsame := h.ancestors_of_path hpath'
  rw [h.ancestors_of_path hpath] at hsame
  exact (List.reverse_inj.mp (Except.ok.inj hsame)).symm

end Grammar
end ScriptHints
