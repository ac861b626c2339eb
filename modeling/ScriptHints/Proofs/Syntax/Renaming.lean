import ScriptHints.Proofs.Syntax.Growth

/-!
# Renamed trees

Two trees with the same nodes and links, but for one name. What is added to both of them keeps
them so: a node is added without a look at the others.
-/

namespace ScriptHints
namespace Syntax

namespace SyntaxTree

/-- The second tree has the same links, and the same nodes at some ids. The places of nodes are
not compared. -/
def SameLinks (same : NodeId → Prop) (t t' : SyntaxTree) : Prop :=
  forall id entry, t.get? id = some entry -> exists entry', t'.get? id = some entry' ∧
    entry'.parent = entry.parent ∧ (same id -> entry'.node = entry.node)

structure Renamed (id : NodeId) (name name' : String) (t t' : SyntaxTree) : Prop where
  root : t'.root = t.root
  size : t'.size = t.size
  before : t.node id = .ok (.identifier name)
  behind : t'.node id = .ok (.identifier name')
  links : t.SameLinks (· ≠ id) t'

variable {same : NodeId → Prop} {id : NodeId} {name name' : String} {t t' : SyntaxTree}

theorem sameLinks_empty (same : NodeId → Prop) (t' : SyntaxTree) : empty.SameLinks same t' :=
  nofun

theorem nextId_eq_of_size (h : t'.size = t.size) : t'.nextId = t.nextId :=
  congrArg NodeId.mk h

theorem SameLinks.add (h : t.SameLinks same t') (hsize : t'.size = t.size) {node node' : Node}
    (hchildren : node'.children = node.children) (hnode : same t.nextId -> node' = node)
    (span span' : Span) : (t.add node span).SameLinks same (t'.add node' span') := by
  intro other entry hentry
  rw [get?_add] at hentry
  rw [get?_add, nextId_eq_of_size hsize]
  split at hentry
  next hnew =>
    cases hentry
    rw [if_pos hnew]
    refine ⟨_, rfl, rfl, fun hsame => hnode ?_⟩
    rw [← hnew]
    exact hsame
  next hold =>
    rcases Option.map_eq_some_iff.mp hentry with ⟨entry₁, hentry₁, rfl⟩
    rcases h other entry₁ hentry₁ with ⟨entry', hentry', hparent, hkept⟩
    rw [if_neg hold, hentry']
    refine ⟨_, rfl, ?_, fun hsame => ?_⟩
    · unfold Entry.adoptedBy
      rw [hchildren]
      split
      next => rfl
      next => exact hparent
    · rw [Entry.adoptedBy_node, Entry.adoptedBy_node]
      exact hkept hsame

theorem renamed_add (hroot : t'.root = t.root) (hsize : t'.size = t.size)
    (hlinks : t.SameLinks (fun _ => True) t') (name name' : String) (span span' : Span) :
    (t.add (.identifier name) span).Renamed t.nextId name name'
      (t'.add (.identifier name') span') where
  root := hroot
  size := by rw [size_add, size_add, hsize]
  before := node_add_nextId ..
  behind := by
    rw [← nextId_eq_of_size hsize]
    exact node_add_nextId ..
  links := by
    have hkept : t.SameLinks (· ≠ t.nextId) t' := by
      intro other entry hentry
      rcases hlinks other entry hentry with ⟨entry', hentry', hparent, hnode⟩
      exact ⟨entry', hentry', hparent, fun _ => hnode trivial⟩
    have hleaf : (Node.identifier name').children = (Node.identifier name).children := rfl
    exact hkept.add hsize hleaf (fun hne => absurd rfl hne) span span'

namespace Renamed

theorem nextId (h : t.Renamed id name name' t') : t'.nextId = t.nextId :=
  nextId_eq_of_size h.size

theorem withRoot (h : t.Renamed id name name' t') (root : NodeId) :
    (t.withRoot root).Renamed id name name' (t'.withRoot root) where
  root := rfl
  size := h.size
  before := h.before
  behind := h.behind
  links := h.links

theorem add (h : t.Renamed id name name' t') (node : Node) (span span' : Span) :
    (t.add node span).Renamed id name name' (t'.add node span') where
  root := h.root
  size := by rw [size_add, size_add, h.size]
  before := (t.extends_add node span).node_eq h.before
  behind := (t'.extends_add node span').node_eq h.behind
  links := h.links.add h.size rfl (fun _ => rfl) span span'

end Renamed

end SyntaxTree
end Syntax
end ScriptHints
