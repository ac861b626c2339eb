import ScriptHints.Proofs.Tree.Shape

/-!
# Operators in parsed trees

A parsed tree can be printed without parentheses of its own: at every node the parts bind as
tight as the node wants, and no call stands where the arguments of a construction would be
taken for its own.
-/

namespace ScriptHints
namespace Syntax

namespace SyntaxTree

def IsAccessed (t : SyntaxTree) (id target : NodeId) : Prop :=
  (exists name, t.node id = .ok (.propertyAccess target name)) ∨
    exists element, t.node id = .ok (.elementAccess target element)

end SyntaxTree

namespace Forest

variable {spanOf : Nat → Nat → Span} {t : SyntaxTree} {parent : Option NodeId}

theorem In.nodes_of_roots {f : Forest} (h : f.In spanOf t parent) :
    f.roots.mapM t.node = .ok f.rootNodes := by
  induction f with
  | nil => rfl
  | node id n first stop below more _ ih =>
      rcases h with ⟨hentry, _, _, hmore⟩
      rw [roots, List.mapM_cons, SyntaxTree.node_of_get? hentry, ih hmore]
      rfl

theorem Grouped.occurs {f below : Forest} (h : f.Grouped) {id : NodeId} {n : Node}
    {first stop : Nat} (hoccurs : Occurs id n first stop below f) :
    n.Groups below.rootNodes ∧ (n.isConstruction = true -> below.callFree = true) := by
  induction hoccurs with
  | here more => exact ⟨h.1, h.2.1⟩
  | inside _ ih => exact ih h.2.2.1
  | beside _ ih => exact ih h.2.2.2

theorem In.ne_call_of_callFree {f : Forest} (h : f.In spanOf t parent)
    (hfree : f.callFree = true) {id front : NodeId} (hid : f.roots.head? = some id)
    (haccess : Relation.ReflTransGen t.IsAccessed id front) (callee : NodeId)
    (arguments : List NodeId) : t.node front ≠ .ok (.call callee arguments) := by
  induction f generalizing parent id with
  | nil => cases hid
  | node id' n first stop below more ihBelow _ =>
      rcases h with ⟨hentry, hchildren, hbelow, _⟩
      have hnode := SyntaxTree.node_of_get? hentry
      cases hid
      rcases haccess.cases_head with rfl | ⟨target, haccessed, hrest⟩
      · intro hcall
        rw [hnode] at hcall
        cases hcall
        cases hfree
      · rcases haccessed with ⟨name, haccess⟩ | ⟨element, haccess⟩
        · rw [hnode] at haccess
          cases haccess
          exact ihBelow hbelow hfree (by rw [← hchildren]; rfl) hrest
        · rw [hnode] at haccess
          cases haccess
          exact ihBelow hbelow hfree (by rw [← hchildren]; rfl) hrest

end Forest

end Syntax

namespace Grammar

open Syntax Token

/--
At every node that the root of a parsed tree reaches, the parts bind as tight as the node
wants. From the target of a construction accesses lead to no call.
-/
theorem parsed_grouping (text : String) (o : Options) (tree : SyntaxTree)
    (h : Parses text o tree) :
    exists root, tree.root = some root ∧
      forall id, tree.Reaches root id ->
        exists n parts, tree.node id = .ok n ∧ n.children.mapM tree.node = .ok parts ∧
          n.Groups parts ∧
          forall target arguments, n = .construction target arguments ->
            forall front, Relation.ReflTransGen tree.IsAccessed target front ->
              forall callee arguments', tree.node front ≠ .ok (.call callee arguments') := by
  rcases whole_of_parses h with ⟨stream, root, f, _, hwhole⟩
  refine ⟨root, hwhole.top, ?_⟩
  intro id hreaches
  rcases Forest.exists_occurs ((hwhole.mem_iff_reaches id).mpr hreaches) with
    ⟨n, first, stop, below, hoccurs⟩
  rcases hwhole.entries.occurs hoccurs with ⟨⟨above, hentry⟩, hchildren, hbelow⟩
  rcases hwhole.grouped.occurs hoccurs with ⟨hgroups, hfree⟩
  refine ⟨n, below.rootNodes, SyntaxTree.node_of_get? hentry, ?_, hgroups, ?_⟩
  · rw [hchildren]
    exact hbelow.nodes_of_roots
  · rintro target arguments rfl front haccess callee arguments'
    apply hbelow.ne_call_of_callFree (hfree rfl) _ haccess
    rw [← hchildren]
    rfl

theorem parsed_grouping_construction :
    exists root, constructionTree.root = some root ∧
      forall id, constructionTree.Reaches root id ->
        exists n parts, constructionTree.node id = .ok n ∧
          n.children.mapM constructionTree.node = .ok parts ∧ n.Groups parts ∧
          forall target arguments, n = .construction target arguments ->
            forall front, Relation.ReflTransGen constructionTree.IsAccessed target front ->
              forall callee arguments',
                constructionTree.node front ≠ .ok (.call callee arguments') :=
  parsed_grouping "new a.b(c)" .strict constructionTree parses_construction

end Grammar
end ScriptHints
