import ScriptHints.Proofs.Syntax.Displacement
import ScriptHints.Proofs.Tree.Printed

/-!
# Nodes that stand in other trees

A node that is copied into another tree, with other ids for its parts, is printed as before.
-/

namespace ScriptHints
namespace Syntax

variable {f : NodeId → NodeId}

/-!
## Parts with other ids
-/

section

variable {α : Type} {print print' : NodeId → Except TreeFault α}

theorem parts_map (ids : List NodeId)
    (h : forall child, child ∈ ids -> print' (f child) = print child) :
    (ids.map f).mapM print' = ids.mapM print := by
  induction ids with
  | nil => rfl
  | cons child ids ih =>
      rw [List.map_cons, List.mapM_cons, List.mapM_cons, h child (List.mem_cons_self ..),
        ih fun other hother => h other (List.mem_cons_of_mem _ hother)]

theorem optionalPart_map (part : Option NodeId)
    (h : forall child, child ∈ part.toList -> print' (f child) = print child) :
    (part.map f).mapM print' = part.mapM print := by
  cases part with
  | none => rfl
  | some child =>
      rw [Option.map_some, Option.mapM_some, Option.mapM_some, h child (List.mem_singleton.mpr rfl)]

theorem optionalParts_map (part : Option (List NodeId))
    (h : forall child, child ∈ part.getD [] -> print' (f child) = print child) :
    (part.map (List.map f)).mapM (fun ids => ids.mapM print') =
      part.mapM fun ids => ids.mapM print := by
  cases part with
  | none => rfl
  | some ids => rw [Option.map_some, Option.mapM_some, Option.mapM_some, parts_map ids h]

theorem elements_map (elements : List (Option NodeId))
    (h : forall child, some child ∈ elements -> print' (f child) = print child) :
    (elements.map (Option.map f)).mapM (fun element => element.mapM print') =
      elements.mapM fun element => element.mapM print := by
  induction elements with
  | nil => rfl
  | cons element elements ih =>
      rw [List.map_cons, List.mapM_cons, List.mapM_cons, ih, optionalPart_map element]
      · intro child hchild
        apply h
        rw [← Option.mem_toList.mp hchild]
        exact List.mem_cons_self ..
      · exact fun child hchild => h child (List.mem_cons_of_mem _ hchild)

end

theorem Node.fragments_map {print print' : Nat → NodeId → Except TreeFault (List Fragment)}
    (level : Nat) (node : Node)
    (h : forall level child, child ∈ node.children -> print' level (f child) = print level child) :
    (node.map f).fragments print' level = node.fragments print level := by
  unfold Node.fragments
  cases node
  case identifier | number | string | boolean | nullValue | thisValue | regExp | empty | skipped =>
    rfl
  case unary operand | parenthesized operand | expressionStatement operand | throwValue operand
      | update operand =>
    simp only [map, h _ operand (by simp [children])]
  case property first second | binary first second | assignment first second
      | propertyAccess first second | elementAccess first second | whileLoop first second
      | doWhileLoop first second | catchClause first second | labeled first second
      | withObject first second =>
    simp only [map, h _ first (by simp [children]), h _ second (by simp [children])]
  case conditional first second third | forInLoop first second third =>
    simp only [map, h _ first (by simp [children]), h _ second (by simp [children]),
      h _ third (by simp [children])]
  case script ids | object ids | sequence ids | «variables» ids statement | block ids =>
    simp only [map, parts_map ids fun id hid => h _ id (by simpa [children] using hid)]
  case array elements =>
    simp only [map, elements_map elements fun id hid =>
      h _ id (by simpa [children] using hid)]
  case call first rest | switchCases first rest =>
    simp only [map, h _ first (by simp [children]),
      parts_map rest fun id hid => h _ id (by simp [children, hid])]
  case construction target arguments =>
    simp only [map, h _ target (by simp [children]),
      optionalParts_map arguments fun id hid => h _ id (by simp [children, hid])]
  case function name params body declaration =>
    simp only [map, h _ body (by simp [children]),
      optionalPart_map name fun id hid => h _ id (by simp [children, hid]),
      parts_map params fun id hid => h _ id (by simp [children, hid])]
  case «variable» target initializer =>
    simp only [map, h _ target (by simp [children]),
      optionalPart_map initializer fun id hid => h _ id (by simp [children, hid])]
  case ifElse condition thenBranch elseBranch =>
    simp only [map, h _ condition (by simp [children]), h _ thenBranch (by simp [children]),
      optionalPart_map elseBranch fun id hid => h _ id (by simp [children, hid])]
  case forLoop initializer condition step body =>
    simp only [map, h _ body (by simp [children]),
      optionalPart_map initializer fun id hid => h _ id (by simp [children, hid]),
      optionalPart_map condition fun id hid => h _ id (by simp [children, hid]),
      optionalPart_map step fun id hid => h _ id (by simp [children, hid])]
  case switchCase test body =>
    have hbody : (body.map f).mapM (print' (level + 1)) = body.mapM (print (level + 1)) :=
      parts_map body fun id hid => h _ id (by simp [children, hid])
    cases test with
    | none => simp only [map, Option.map_none, hbody]
    | some test => simp only [map, Option.map_some, hbody, h _ test (by simp [children])]
  case breakOff part | continueOn part | returnValue part =>
    simp only [map, optionalPart_map part fun id hid => h _ id (by simp [children, hid])]
  case tryCatch body handler finalizer =>
    simp only [map, h _ body (by simp [children]),
      optionalPart_map handler fun id hid => h _ id (by simp [children, hid]),
      optionalPart_map finalizer fun id hid => h _ id (by simp [children, hid])]

/-!
## Copies
-/

namespace SyntaxTree

variable {t t' : SyntaxTree}

structure Copied (f : NodeId → NodeId) (t t' : SyntaxTree) : Prop where
  size : t.size ≤ t'.size
  node (i : NodeId) (entry : Entry) : t.get? i = some entry ->
    t'.node (f i) = .ok (entry.node.map f)

theorem Copied.node_eq (h : t.Copied f t') {id : NodeId} {node : Node}
    (hnode : t.node id = .ok node) :
    t'.node (f id) = .ok (node.map f) := by
  unfold SyntaxTree.node entry at hnode
  cases hget : t.get? id with
  | none =>
      rw [hget] at hnode
      cases hnode
  | some found =>
      rw [hget] at hnode
      cases hnode
      exact h.node id found hget

theorem Copied.withRoot (h : t.Copied f t') (root : NodeId) : t.Copied f (t'.withRoot root) :=
  ⟨h.size, h.node⟩

theorem Copied.trans {t'' : SyntaxTree} (h : t.Copied id t') (h' : t'.Copied f t'') :
    t.Copied f t'' where
  size := Nat.le_trans h.size h'.size
  node i entry hentry := by
    have hlt := Nat.lt_of_lt_of_le (index_lt_of_get? hentry) h.size
    rcases exists_get?_of_index_lt hlt with ⟨entry', hentry'⟩
    have hsame := h.node i entry hentry
    rw [id_eq, node_of_get? hentry', Node.map_id] at hsame
    injection hsame with hsame
    rw [h'.node i entry' hentry', hsame]

theorem Extends.copied (h : t.Extends t') : t.Copied id t' where
  size := h.size_le
  node i entry hentry := by
    rw [Node.map_id]
    exact h.node_eq (node_of_get? hentry)

section

variable {d : Offset} {spans : Span → Span → Prop} {old : SyntaxTree}
  (h : t.Displaced d spans old t')

include h

theorem Displaced.copied : t.Copied d.id t' where
  size := by
    rw [h.size]
    exact Nat.le_add_left _ _
  node _ _ hentry := h.node_eq (node_of_get? hentry)

theorem Displaced.copied_front (hnodes : d.nodes = old.size) : old.Copied id t' where
  size := by
    rw [h.size, hnodes]
    exact Nat.le_add_right _ _
  node i entry hentry := by
    have hlt : i.index < d.nodes := by
      rw [hnodes]
      exact index_lt_of_get? hentry
    rw [Node.map_id, id_eq, node_of_get? ((h.front i hlt).trans hentry)]

/-- Behind no nodes a displaced tree has only the nodes of the other one. -/
theorem Displaced.copied_back (hnodes : d.nodes = 0) : t'.Copied id t where
  size := by
    rw [h.size, hnodes, Nat.zero_add]
  node i entry hentry := by
    have hid : d.id = id := by
      funext i
      simp [Offset.id, hnodes]
    have hlt : i.index < t.size := by
      have hlt := index_lt_of_get? hentry
      rw [h.size, hnodes, Nat.zero_add] at hlt
      exact hlt
    rcases exists_get?_of_index_lt hlt with ⟨entry₁, hentry₁⟩
    rcases h.behind i entry₁ hentry₁ with ⟨entry', hentry', hsame⟩
    rw [hid, id_eq, hentry] at hentry'
    cases hentry'
    rw [hsame.node, hid, Node.map_id, Node.map_id, id_eq, node_of_get? hentry₁]

end

theorem Copied.fragmentsWithin_eq (h : t.Copied f t') (hsound : t.Sound) {id : NodeId}
    (hid : id.index < t.size) {b b' : Nat} (hb : id.index < b) (hb' : id.index < b') (level : Nat) :
    t'.fragmentsWithin b' level (f id) = t.fragmentsWithin b level id := by
  induction b generalizing b' level id with
  | zero => exact absurd hb (Nat.not_lt_zero _)
  | succ b ih =>
      cases b' with
      | zero => exact absurd hb' (Nat.not_lt_zero _)
      | succ b' =>
          rcases exists_get?_of_index_lt hid with ⟨entry, hentry⟩
          have hnode := node_of_get? hentry
          unfold fragmentsWithin
          rw [hnode, h.node id entry hentry]
          apply entry.node.fragments_map
          intro level' child hchild
          have holder := hsound.children hentry child hchild
          exact ih (Nat.lt_trans holder hid) (by omega) (by omega) level'

theorem Copied.toSource_eq (h : t.Copied f t') (hsound : t.Sound) {id : NodeId}
    (hid : id.index < t.size) : t'.toSource (f id) = t.toSource id := by
  have hbudget : id.index < t.budget := Nat.lt_succ_of_lt hid
  have hbudget' : id.index < t'.budget := Nat.lt_of_lt_of_le hbudget (Nat.succ_le_succ h.size)
  unfold toSource fragments
  rw [h.fragmentsWithin_eq hsound hid hbudget hbudget']

theorem Copied.mapM_toSource_eq (h : t.Copied f t') (hsound : t.Sound) {ids : List NodeId}
    (hids : forall id, id ∈ ids -> id.index < t.size) :
    (ids.map f).mapM t'.toSource = ids.mapM t.toSource :=
  parts_map _ fun id hid => h.toSource_eq hsound (hids id hid)

end SyntaxTree

end Syntax
end ScriptHints
