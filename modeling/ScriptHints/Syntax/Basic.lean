import ScriptHints.Syntax.Node
import ScriptHints.Syntax.Span

/-!
# Syntax trees

A syntax tree keeps its nodes in one array, in the order in which they were added, and a
node is named by its position there. An added node adopts its children: it becomes their
parent, and an earlier parent is forgotten. Ids that name no node, and links that lead in
a circle, are faults of a walk and not of the tree.
-/

namespace ScriptHints
namespace Syntax

structure Entry where
  node : Node
  span : Span
  parent : Option NodeId
deriving DecidableEq, Repr

structure SyntaxTree where
  entries : Array Entry
  root : Option NodeId
deriving DecidableEq, Repr

inductive TreeFault where
  | missing (id : NodeId)
  | endless
deriving DecidableEq, Repr

namespace SyntaxTree

def empty : SyntaxTree :=
  { entries := #[], root := none }

def size (t : SyntaxTree) : Nat :=
  t.entries.size

/-!
## Growth
-/

def adopt (parent : NodeId) (entries : Array Entry) (child : NodeId) : Array Entry :=
  entries.modify child.index fun entry => { entry with parent := some parent }

/-- The id that the next node will get. -/
def nextId (t : SyntaxTree) : NodeId :=
  ⟨t.size⟩

def add (t : SyntaxTree) (node : Node) (span : Span) : SyntaxTree :=
  let adopted := node.children.foldl (adopt t.nextId) t.entries
  { t with entries := adopted.push { node := node, span := span, parent := none } }

def withRoot (t : SyntaxTree) (root : NodeId) : SyntaxTree :=
  { t with root := some root }

@[simp] theorem size_empty : empty.size = 0 := rfl

theorem size_foldl_adopt (parent : NodeId) (children : List NodeId) (entries : Array Entry) :
    (children.foldl (adopt parent) entries).size = entries.size := by
  induction children generalizing entries with
  | nil => rfl
  | cons c children ih => simp [ih, adopt]

@[simp] theorem size_add (t : SyntaxTree) (node : Node) (span : Span) :
    (t.add node span).size = t.size + 1 := by
  simp [add, size, size_foldl_adopt]

/-!
## Look-up
-/

def get? (t : SyntaxTree) (id : NodeId) : Option Entry :=
  t.entries[id.index]?

def entry (t : SyntaxTree) (id : NodeId) : Except TreeFault Entry :=
  match t.get? id with
  | some entry => .ok entry
  | none => .error (.missing id)

def node (t : SyntaxTree) (id : NodeId) : Except TreeFault Node :=
  (t.entry id).map (·.node)

def span (t : SyntaxTree) (id : NodeId) : Except TreeFault Span :=
  (t.entry id).map (·.span)

def parent (t : SyntaxTree) (id : NodeId) : Except TreeFault (Option NodeId) :=
  (t.entry id).map (·.parent)

def children (t : SyntaxTree) (id : NodeId) : Except TreeFault (List NodeId) :=
  (t.node id).map (·.children)

def identifierName (t : SyntaxTree) (id : NodeId) : Except TreeFault (Option String) :=
  (t.node id).map (·.identifierName?)

/-- The top-level statements of a script; any other root has none. -/
def statements (t : SyntaxTree) : Except TreeFault (List NodeId) :=
  match t.root with
  | none => .ok []
  | some root =>
      (t.node root).map fun
        | .script statements => statements
        | _ => []

end SyntaxTree
end Syntax
end ScriptHints
