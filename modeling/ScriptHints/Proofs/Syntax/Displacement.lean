import ScriptHints.Proofs.Syntax.Growth

/-!
# Displaced trees

A tree that was built behind other nodes is the tree that would have been built alone, with
all its ids raised by the number of the nodes before it. The nodes before it are not
touched: a node adopts only the children that it names, and these are all behind them.
-/

namespace ScriptHints
namespace Syntax

namespace Node

def map (f : NodeId → NodeId) : Node → Node
  | .script statements => .script (statements.map f)
  | .identifier name => .identifier name
  | .number value raw => .number value raw
  | .string value quote => .string value quote
  | .boolean value => .boolean value
  | .nullValue => .nullValue
  | .thisValue => .thisValue
  | .regExp pattern flags => .regExp pattern flags
  | .object properties => .object (properties.map f)
  | .property key value => .property (f key) (f value)
  | .array elements => .array (elements.map (Option.map f))
  | .binary operator left right => .binary operator (f left) (f right)
  | .assignment operator target value => .assignment operator (f target) (f value)
  | .propertyAccess target name => .propertyAccess (f target) (f name)
  | .elementAccess target element => .elementAccess (f target) (f element)
  | .call target arguments => .call (f target) (arguments.map f)
  | .construction target arguments => .construction (f target) (arguments.map (List.map f))
  | .unary operator operand => .unary operator (f operand)
  | .update operator side operand => .update operator side (f operand)
  | .conditional test consequent alternative =>
      .conditional (f test) (f consequent) (f alternative)
  | .parenthesized expression => .parenthesized (f expression)
  | .sequence expressions => .sequence (expressions.map f)
  | .function name params body declaration =>
      .function (name.map f) (params.map f) (f body) declaration
  | .expressionStatement expression => .expressionStatement (f expression)
  | .variables declared statement => .variables (declared.map f) statement
  | .variable target initializer => .variable (f target) (initializer.map f)
  | .block statements => .block (statements.map f)
  | .empty => .empty
  | .ifElse condition thenBranch elseBranch =>
      .ifElse (f condition) (f thenBranch) (elseBranch.map f)
  | .whileLoop condition body => .whileLoop (f condition) (f body)
  | .doWhileLoop body condition => .doWhileLoop (f body) (f condition)
  | .forLoop initializer condition step body =>
      .forLoop (initializer.map f) (condition.map f) (step.map f) (f body)
  | .forInLoop iterator subject body => .forInLoop (f iterator) (f subject) (f body)
  | .switchCases discriminant cases => .switchCases (f discriminant) (cases.map f)
  | .switchCase test body => .switchCase (test.map f) (body.map f)
  | .breakOff label => .breakOff (label.map f)
  | .continueOn label => .continueOn (label.map f)
  | .returnValue value => .returnValue (value.map f)
  | .throwValue value => .throwValue (f value)
  | .tryCatch body handler finalizer => .tryCatch (f body) (handler.map f) (finalizer.map f)
  | .catchClause parameter body => .catchClause (f parameter) (f body)
  | .labeled label body => .labeled (f label) (f body)
  | .withObject subject body => .withObject (f subject) (f body)
  | .skipped text => .skipped text

theorem children_map (f : NodeId → NodeId) (node : Node) :
    (node.map f).children = node.children.map f := by
  cases node with
  | construction target arguments => cases arguments <;> rfl
  | _ => simp [map, children, List.filterMap_map, List.map_filterMap, Option.toList_map]

theorem map_id (node : Node) : node.map id = node := by
  cases node <;> simp [map]

end Node

/-- How far a tree is behind the beginning of its arena, and its tokens behind the first one. -/
structure Offset where
  tokens : Nat
  nodes : Nat
deriving DecidableEq, Repr

namespace Offset

variable (d : Offset)

def id (id : NodeId) : NodeId :=
  ⟨d.nodes + id.index⟩

theorem id_inj {i j : NodeId} : d.id i = d.id j ↔ i = j := by
  cases i
  cases j
  simp [id]

@[simp] theorem id_zero (tokens : Nat) (i : NodeId) : (Offset.mk tokens 0).id i = i := by
  simp [id]

theorem mem_map_id_iff {i : NodeId} {ids : List NodeId} : d.id i ∈ ids.map d.id ↔ i ∈ ids := by
  rw [List.mem_map]
  constructor
  · rintro ⟨j, hj, heq⟩
    rw [← d.id_inj.mp heq]
    exact hj
  · intro h
    exact ⟨i, h, rfl⟩

end Offset

structure Entry.Displaced (d : Offset) (spans : Span → Span → Prop) (entry entry' : Entry) :
    Prop where
  node : entry'.node = entry.node.map d.id
  span : spans entry.span entry'.span
  parent : entry'.parent = entry.parent.map d.id

/-- The second tree has the first nodes of the old tree, and then those of the first tree. -/
structure SyntaxTree.Displaced (d : Offset) (spans : Span → Span → Prop) (t old t' : SyntaxTree) :
    Prop where
  size : t'.size = d.nodes + t.size
  front : forall id, id.index < d.nodes -> t'.get? id = old.get? id
  behind : forall id entry, t.get? id = some entry ->
    exists entry', t'.get? (d.id id) = some entry' ∧ entry.Displaced d spans entry'

namespace SyntaxTree

variable {d : Offset} {spans : Span → Span → Prop} {old t t' : SyntaxTree}

theorem displaced_empty (hnodes : d.nodes = t.size) : empty.Displaced d spans t t where
  size := by rw [size_empty, hnodes, Nat.add_zero]
  front _ _ := rfl
  behind _ _ h := nomatch h

theorem Displaced.nextId (h : t.Displaced d spans old t') : t'.nextId = d.id t.nextId :=
  congrArg NodeId.mk h.size

theorem Displaced.withRoot (h : t.Displaced d spans old t') (root root' : NodeId) :
    (t.withRoot root).Displaced d spans old (t'.withRoot root') where
  size := h.size
  front := h.front
  behind := h.behind

theorem Displaced.node_eq (h : t.Displaced d spans old t') {id : NodeId} {node : Node}
    (hnode : t.node id = .ok node) : t'.node (d.id id) = .ok (node.map d.id) := by
  unfold SyntaxTree.node entry at hnode ⊢
  cases hentry : t.get? id with
  | none =>
      rw [hentry] at hnode
      cases hnode
  | some entry =>
      rw [hentry] at hnode
      cases hnode
      rcases h.behind id entry hentry with ⟨entry', hentry', hdisplaced⟩
      rw [hentry']
      exact congrArg Except.ok hdisplaced.node

theorem Entry.Displaced.adoptedBy {entry entry' : Entry} (h : entry.Displaced d spans entry')
    (id parent : NodeId) (node : Node) :
    (entry.adoptedBy id parent node).Displaced d spans
      (entry'.adoptedBy (d.id id) (d.id parent) (node.map d.id)) := by
  have hmem : d.id id ∈ (node.map d.id).children ↔ id ∈ node.children := by
    rw [Node.children_map]
    exact d.mem_map_id_iff
  unfold Entry.adoptedBy
  by_cases hchild : id ∈ node.children
  · rw [if_pos hchild, if_pos (hmem.mpr hchild)]
    exact ⟨h.node, h.span, rfl⟩
  · rw [if_neg hchild, if_neg fun hchild' => hchild (hmem.mp hchild')]
    exact h

/-- The nodes of both trees adopt the same children, and none of those in front. -/
theorem Displaced.add (h : t.Displaced d spans old t') (node : Node) {span span' : Span}
    (hspan : spans span span') :
    (t.add node span).Displaced d spans old (t'.add (node.map d.id) span') where
  size := by rw [size_add, size_add, h.size, Nat.add_assoc]
  front := by
    intro id hid
    have hne : id ≠ t'.nextId := by
      intro heq
      rw [heq] at hid
      have hsize := h.size
      exact absurd (show t'.size < d.nodes from hid) (by omega)
    have hchild : id ∉ (node.map d.id).children := by
      rw [Node.children_map, List.mem_map]
      rintro ⟨child, _, rfl⟩
      exact absurd hid (Nat.not_lt_of_le (Nat.le_add_right _ _))
    rw [get?_add, if_neg hne, h.front id hid]
    cases old.get? id with
    | none => rfl
    | some entry =>
        show some (entry.adoptedBy id t'.nextId (node.map d.id)) = some entry
        unfold Entry.adoptedBy
        rw [if_neg hchild]
  behind := by
    intro id entry hentry
    rw [get?_add] at hentry
    rw [get?_add, h.nextId]
    split at hentry
    next hnew =>
      cases hentry
      rw [hnew, if_pos rfl]
      exact ⟨_, rfl, rfl, hspan, rfl⟩
    next hold =>
      rcases Option.map_eq_some_iff.mp hentry with ⟨entry₁, hentry₁, rfl⟩
      rcases h.behind id entry₁ hentry₁ with ⟨entry', hentry', hdisplaced⟩
      rw [if_neg fun heq => hold (d.id_inj.mp heq), hentry']
      exact ⟨_, rfl, Entry.Displaced.adoptedBy hdisplaced id t.nextId node⟩

/-!
## Trees without places
-/

/-- The nodes with their parents and the root, but without their places in the text. -/
def unplaced (t : SyntaxTree) : Option NodeId × List (Node × Option NodeId) :=
  (t.root, t.entries.toList.map fun entry => (entry.node, entry.parent))

theorem Displaced.unplaced_eq (h : t.Displaced d spans old t') (hnodes : d.nodes = 0)
    (hroot : t'.root = t.root) : t'.unplaced = t.unplaced := by
  have hid : d.id = id := by
    funext i
    simp [Offset.id, hnodes]
  have hsize : t'.entries.toList.length = t.entries.toList.length := by
    have hsize := h.size
    rw [hnodes, Nat.zero_add] at hsize
    exact hsize
  unfold unplaced
  rw [hroot]
  congr 1
  apply List.ext_getElem (by rw [List.length_map, List.length_map, hsize])
  intro i hi' hi
  rw [List.length_map] at hi hi'
  have hentry : t.get? ⟨i⟩ = some t.entries.toList[i] := by simp [get?]
  rcases h.behind ⟨i⟩ _ hentry with ⟨entry', hentry', hsame⟩
  have hfound : t'.get? ⟨i⟩ = some t'.entries.toList[i] := by simp [get?]
  rw [hid] at hentry'
  rw [show t'.get? ⟨i⟩ = some entry' from hentry'] at hfound
  cases hfound
  rw [List.getElem_map, List.getElem_map, hsame.node, hsame.parent, hid, Node.map_id, Option.map_id]
  rfl

end SyntaxTree
end Syntax
end ScriptHints
