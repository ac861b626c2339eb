import ScriptHints.Syntax.Basic

/-!
# Growth of trees

A tree only grows: what a node is and which part of the text it covers never changes once
it has been added. Its parent may change, because a later node may adopt it.
-/

namespace ScriptHints
namespace Syntax

def Entry.adoptedBy (entry : Entry) (id parent : NodeId) (node : Node) : Entry :=
  if id ∈ node.children then { entry with parent := some parent } else entry

theorem Entry.adoptedBy_node (entry : Entry) (id parent : NodeId) (node : Node) :
    (entry.adoptedBy id parent node).node = entry.node := by
  unfold adoptedBy
  split <;> rfl

theorem Entry.adoptedBy_span (entry : Entry) (id parent : NodeId) (node : Node) :
    (entry.adoptedBy id parent node).span = entry.span := by
  unfold adoptedBy
  split <;> rfl

namespace SyntaxTree

/-!
## Look-up behind an addition
-/

theorem getElem?_adopt (parent child : NodeId) (entries : Array Entry) (index : Nat) :
    (adopt parent entries child)[index]? =
      entries[index]?.map fun entry =>
        if index = child.index then { entry with parent := some parent } else entry := by
  unfold adopt
  rw [Array.getElem?_modify]
  by_cases h : child.index = index
  · rw [if_pos h]
    simp [h]
  · rw [if_neg h]
    have h' : index ≠ child.index := fun heq => h heq.symm
    simp [h']

theorem getElem?_foldl_adopt (parent : NodeId) (children : List NodeId) (entries : Array Entry)
    (id : NodeId) :
    (children.foldl (adopt parent) entries)[id.index]? =
      entries[id.index]?.map fun entry =>
        if id ∈ children then { entry with parent := some parent } else entry := by
  induction children generalizing entries with
  | nil => simp
  | cons child children ih =>
      rw [List.foldl_cons, ih, getElem?_adopt]
      have hindex : id.index = child.index ↔ id = child := by
        cases id
        cases child
        simp
      cases entries[id.index]? with
      | none => rfl
      | some entry =>
          by_cases hchild : id = child <;> by_cases hmember : id ∈ children <;>
            simp [hindex, hchild, hmember]

theorem get?_add (t : SyntaxTree) (node : Node) (span : Span) (id : NodeId) :
    (t.add node span).get? id =
      if id = t.nextId then some { node := node, span := span, parent := none }
      else (t.get? id).map (·.adoptedBy id t.nextId node) := by
  unfold add get?
  have hsize := size_foldl_adopt t.nextId node.children t.entries
  rw [Array.getElem?_push, hsize]
  by_cases h : id = t.nextId
  · rw [if_pos h, if_pos (by rw [h]; rfl)]
  · have hindex : id.index ≠ t.entries.size := by
      intro heq
      apply h
      cases id
      exact congrArg NodeId.mk heq
    rw [if_neg h, if_neg hindex, getElem?_foldl_adopt]
    rfl

theorem get?_nextId (t : SyntaxTree) : t.get? t.nextId = none := by
  unfold get? nextId size
  simp

theorem index_lt_of_get? {t : SyntaxTree} {id : NodeId} {entry : Entry}
    (h : t.get? id = some entry) : id.index < t.size :=
  (Array.getElem?_eq_some_iff.mp h).choose

theorem exists_get?_of_index_lt {t : SyntaxTree} {id : NodeId} (h : id.index < t.size) :
    exists entry, t.get? id = some entry :=
  ⟨t.entries[id.index], Array.getElem?_eq_getElem h⟩

/-!
## Sound trees
-/

structure Sound (t : SyntaxTree) : Prop where
  children : forall {id entry}, t.get? id = some entry ->
    forall child, child ∈ entry.node.children -> child.index < id.index
  parent : forall {id entry}, t.get? id = some entry ->
    forall parent, entry.parent = some parent -> id.index < parent.index ∧ parent.index < t.size

theorem sound_empty : empty.Sound where
  children h := nomatch h
  parent h := nomatch h

theorem Sound.withRoot {t : SyntaxTree} (h : t.Sound) (root : NodeId) :
    (t.withRoot root).Sound where
  children := h.children
  parent := h.parent

theorem Sound.add {t : SyntaxTree} (h : t.Sound) {node : Node} (span : Span)
    (hchildren : forall child, child ∈ node.children -> child.index < t.size) :
    (t.add node span).Sound := by
  constructor
  · intro id entry hentry child hchild
    rw [get?_add] at hentry
    split at hentry
    next hnew =>
      cases hentry
      rw [hnew]
      exact hchildren child hchild
    next =>
      rcases Option.map_eq_some_iff.mp hentry with ⟨entry', hentry', rfl⟩
      rw [Entry.adoptedBy_node] at hchild
      exact h.children hentry' child hchild
  · intro id entry hentry parent hparent
    rw [get?_add] at hentry
    rw [size_add]
    split at hentry
    next =>
      cases hentry
      cases hparent
    next =>
      rcases Option.map_eq_some_iff.mp hentry with ⟨entry', hentry', rfl⟩
      unfold Entry.adoptedBy at hparent
      split at hparent
      next hadopted =>
        cases hparent
        exact ⟨hchildren id hadopted, Nat.lt_succ_self _⟩
      next =>
        rcases h.parent hentry' parent hparent with ⟨hyounger, hlt⟩
        exact ⟨hyounger, Nat.lt_succ_of_lt hlt⟩

structure Filled (t : SyntaxTree) : Prop where
  children : forall {id entry}, t.get? id = some entry ->
    entry.node.isJoined = true -> entry.node.children ≠ []

theorem filled_empty : empty.Filled where
  children h := nomatch h

theorem Filled.withRoot {t : SyntaxTree} (h : t.Filled) (root : NodeId) :
    (t.withRoot root).Filled where
  children := h.children

theorem Filled.add {t : SyntaxTree} (h : t.Filled) {node : Node} (span : Span)
    (hnode : node.isJoined = true -> node.children ≠ []) : (t.add node span).Filled where
  children {id entry} hentry hjoined := by
    rw [get?_add] at hentry
    split at hentry
    next =>
      cases hentry
      exact hnode hjoined
    next =>
      rcases Option.map_eq_some_iff.mp hentry with ⟨entry', hentry', rfl⟩
      rw [Entry.adoptedBy_node] at hjoined ⊢
      exact h.children hentry' hjoined

/-!
## Extensions
-/

def Extends (t t' : SyntaxTree) : Prop :=
  t'.root = t.root ∧ forall id entry, t.get? id = some entry ->
    exists entry', t'.get? id = some entry' ∧ entry'.node = entry.node ∧ entry'.span = entry.span

theorem Extends.refl (t : SyntaxTree) : t.Extends t :=
  ⟨rfl, fun _ entry h => ⟨entry, h, rfl, rfl⟩⟩

theorem Extends.trans {t t' t'' : SyntaxTree} (h : t.Extends t') (h' : t'.Extends t'') :
    t.Extends t'' := by
  refine ⟨h'.1.trans h.1, ?_⟩
  intro id entry hentry
  rcases h.2 id entry hentry with ⟨entry', hentry', hnode, hspan⟩
  rcases h'.2 id entry' hentry' with ⟨entry'', hentry'', hnode', hspan'⟩
  exact ⟨entry'', hentry'', hnode'.trans hnode, hspan'.trans hspan⟩

theorem extends_add (t : SyntaxTree) (node : Node) (span : Span) :
    t.Extends (t.add node span) := by
  refine ⟨rfl, ?_⟩
  intro id entry hentry
  refine ⟨entry.adoptedBy id t.nextId node, ?_, entry.adoptedBy_node _ _ _,
    entry.adoptedBy_span _ _ _⟩
  have hne : id ≠ t.nextId := by
    intro heq
    rw [heq, get?_nextId] at hentry
    cases hentry
  rw [get?_add, if_neg hne, hentry]
  rfl

theorem Extends.size_le {t t' : SyntaxTree} (h : t.Extends t') : t.size ≤ t'.size := by
  apply Nat.le_of_not_lt
  intro hlt
  have hid : (NodeId.mk t'.size).index < t.size := hlt
  rcases exists_get?_of_index_lt hid with ⟨entry, hentry⟩
  rcases h.2 _ _ hentry with ⟨entry', hentry', _⟩
  exact absurd (index_lt_of_get? hentry') (Nat.lt_irrefl _)

theorem Extends.node_eq {t t' : SyntaxTree} (h : t.Extends t') {id : NodeId} {node : Node}
    (hnode : t.node id = .ok node) : t'.node id = .ok node := by
  unfold SyntaxTree.node entry at hnode ⊢
  cases hget : t.get? id with
  | none =>
      rw [hget] at hnode
      cases hnode
  | some found =>
      rw [hget] at hnode
      rcases h.2 id found hget with ⟨found', hget', hsame, _⟩
      rw [hget']
      rw [← hnode]
      exact congrArg Except.ok hsame

theorem Extends.span_eq {t t' : SyntaxTree} (h : t.Extends t') {id : NodeId} {span : Span}
    (hspan : t.span id = .ok span) : t'.span id = .ok span := by
  unfold SyntaxTree.span entry at hspan ⊢
  cases hget : t.get? id with
  | none =>
      rw [hget] at hspan
      cases hspan
  | some found =>
      rw [hget] at hspan
      rcases h.2 id found hget with ⟨found', hget', _, hsame⟩
      rw [hget']
      rw [← hspan]
      exact congrArg Except.ok hsame

theorem node_add_nextId (t : SyntaxTree) (node : Node) (span : Span) :
    (t.add node span).node t.nextId = .ok node := by
  unfold SyntaxTree.node entry
  rw [get?_add, if_pos rfl]
  rfl

theorem span_add_nextId (t : SyntaxTree) (node : Node) (span : Span) :
    (t.add node span).span t.nextId = .ok span := by
  unfold SyntaxTree.span entry
  rw [get?_add, if_pos rfl]
  rfl

end SyntaxTree
end Syntax
end ScriptHints
