import ScriptHints.Proofs.Tree.Walks

/-!
# Walks downwards

Two walks lead downwards through a tree: one keeps the nodes that wait for it on a stack, the
other goes into one child after the other. Where every node is younger than its children, both come
to an end, and to the same nodes in the same order, whatever parents the nodes have.
-/

namespace ScriptHints
namespace Syntax
namespace SyntaxTree

variable {t : SyntaxTree} {id : NodeId}

def ChildrenOlder (t : SyntaxTree) : Prop :=
  forall id entry, t.get? id = some entry ->
    forall child, child ∈ entry.node.children -> child.index < id.index

/-- The node, and then what its children have for their order, child by child. -/
inductive PreOrder (t : SyntaxTree) : NodeId → List NodeId → Prop where
  | node {id : NodeId} {children : List NodeId} {orders : List (List NodeId)} :
      t.children id = .ok children ->
      List.Forall₂ (PreOrder t) children orders ->
      PreOrder t id (id :: orders.flatten)

/--
The nodes that a stack gives, taken from its top until it is empty.

A node that is taken off makes room for its children, with the first of them on top.
-/
inductive Unwinds (t : SyntaxTree) : List NodeId → List NodeId → Prop where
  | done : Unwinds t [] []
  | next {id : NodeId} {children stack ids : List NodeId} :
      t.children id = .ok children ->
      Unwinds t (children ++ stack) ids ->
      Unwinds t (id :: stack) (id :: ids)

/-!
## One child after the other
-/

theorem index_lt_of_children {children : List NodeId} (h : t.children id = .ok children) :
    id.index < t.size := by
  unfold SyntaxTree.children SyntaxTree.node SyntaxTree.entry at h
  cases hentry : t.get? id with
  | none =>
      rw [hentry] at h
      cases h
  | some entry => exact index_lt_of_get? hentry

theorem ChildrenOlder.lookup (h : t.ChildrenOlder) (hid : id.index < t.size) :
    exists entry, t.get? id = some entry ∧ t.children id = .ok entry.node.children ∧
      forall child, child ∈ entry.node.children -> child.index < id.index := by
  rcases exists_get?_of_index_lt hid with ⟨entry, hentry⟩
  exact ⟨entry, hentry, children_of_get? hentry, h id entry hentry⟩

theorem exists_forall₂ {R : α → β → Prop} {as : List α} (h : forall a, a ∈ as -> exists b, R a b) :
    exists bs, List.Forall₂ R as bs := by
  induction as with
  | nil => exact ⟨[], .nil⟩
  | cons a as ih =>
      rcases h a List.mem_cons_self with ⟨b, hb⟩
      rcases ih fun a' ha' => h a' (List.mem_cons_of_mem a ha') with ⟨bs, hbs⟩
      exact ⟨b :: bs, .cons hb hbs⟩

theorem ChildrenOlder.exists_preOrder (h : t.ChildrenOlder) (hid : id.index < t.size) :
    exists order, t.PreOrder id order := by
  -- The bound on the index shrinks with each step downwards.
  have hbounded (bound : Nat) : forall id : NodeId, id.index < bound -> id.index < t.size ->
      exists order, t.PreOrder id order := by
    induction bound with
    | zero => exact fun _ hbound _ => absurd hbound (Nat.not_lt_zero _)
    | succ bound ih =>
        intro id hbound hid
        rcases h.lookup hid with ⟨entry, _, hchildren, holder⟩
        have hbelow : forall child, child ∈ entry.node.children ->
            exists order, t.PreOrder child order := by
          intro child hchild
          have hless := holder child hchild
          exact ih child (by omega) (by omega)
        rcases exists_forall₂ hbelow with ⟨orders, horders⟩
        exact ⟨_, .node hchildren horders⟩
  exact hbounded (id.index + 1) id (Nat.lt_succ_self _) hid

theorem forall₂_unique {R : α → β → Prop} {as : List α} {bs bs' : List β}
    (hunique : forall a b b', a ∈ as -> R a b -> R a b' -> b = b')
    (h : List.Forall₂ R as bs) (h' : List.Forall₂ R as bs') : bs = bs' := by
  induction h generalizing bs' with
  | nil =>
      cases h'
      rfl
  | @cons a b as bs hab _ ih =>
      cases h' with
      | cons hab' hrest =>
          rw [hunique a _ _ List.mem_cons_self hab hab',
            ih (fun a' b b' ha' => hunique a' b b' (List.mem_cons_of_mem a ha')) hrest]

theorem ChildrenOlder.preOrder_unique (h : t.ChildrenOlder) (hid : id.index < t.size)
    {order order' : List NodeId} (horder : t.PreOrder id order) (horder' : t.PreOrder id order') :
    order = order' := by
  have hbounded (bound : Nat) : forall (id : NodeId) (order order' : List NodeId),
      id.index < bound -> id.index < t.size -> t.PreOrder id order -> t.PreOrder id order' ->
      order = order' := by
    induction bound with
    | zero => exact fun _ _ _ hbound _ _ _ => absurd hbound (Nat.not_lt_zero _)
    | succ bound ih =>
        intro id order order' hbound hid horder horder'
        rcases h.lookup hid with ⟨entry, _, hentry, holder⟩
        cases horder with
        | node hchildren horders =>
            cases horder' with
            | node hchildren' horders' =>
                rw [hentry] at hchildren hchildren'
                cases hchildren
                cases hchildren'
                have hsame := forall₂_unique (fun child b b' hchild =>
                  have hless := holder child hchild
                  ih child b b' (by omega) (by omega)) horders horders'
                rw [hsame]
  exact hbounded (id.index + 1) id order order' (Nat.lt_succ_self _) hid horder horder'

/-!
## With a stack
-/

theorem unwinds_of_visit {stack : List (Nat × NodeId)} {ids : List NodeId}
    (h : t.visit stack = .ok ids) : t.Unwinds (stack.map Prod.snd) ids := by
  fun_induction SyntaxTree.visit t stack generalizing ids with
  | case1 =>
      cases h
      exact .done
  | case2 => cases h
  | case3 => cases h
  | case4 b id stack children hfound ih =>
      cases hrest : t.visit (children.map (b, ·) ++ stack) with
      | error fault =>
          rw [hrest] at h
          cases h
      | ok rest =>
          rw [hrest] at h
          cases h
          have hunwinds := ih hrest
          rw [List.map_append, List.map_map, Function.comp_def, List.map_id'] at hunwinds
          exact .next hfound hunwinds

theorem Unwinds.index_lt {stack ids : List NodeId} (h : t.Unwinds stack ids) {id : NodeId}
    (hid : id ∈ ids) : id.index < t.size := by
  induction h with
  | done => cases hid
  | next hchildren _ ih =>
      rcases List.mem_cons.mp hid with rfl | hlater
      · exact index_lt_of_children hchildren
      · exact ih hlater

/-- A node of the tree that waits for its order to be told, with a budget that is large enough. -/
structure Waits (t : SyntaxTree) (waiting : Nat × NodeId) (order : List NodeId) : Prop where
  budget : waiting.2.index < waiting.1
  inTree : waiting.2.index < t.size
  order : t.PreOrder waiting.2 order

/-- What waits on the stack is visited in the order of the stack, each with what is below it. -/
theorem ChildrenOlder.visit_of_waits (h : t.ChildrenOlder) {stack : List (Nat × NodeId)}
    {orders : List (List NodeId)} (hstack : List.Forall₂ t.Waits stack orders) :
    t.visit stack = .ok orders.flatten := by
  fun_induction SyntaxTree.visit t stack generalizing orders with
  | case1 =>
      cases hstack
      rfl
  | case2 id stack =>
      cases hstack with
      | cons hhere _ => exact absurd hhere.budget (Nat.not_lt_zero _)
  | case3 b id stack fault hfault =>
      cases hstack with
      | cons hhere _ =>
          rcases h.lookup hhere.inTree with ⟨_, _, hchildren, _⟩
          rw [hchildren] at hfault
          cases hfault
  | case4 b id stack children hfound ih =>
      cases hstack with
      | @cons _ _ _ rest hhere hwaits =>
          have hbudget : id.index < b + 1 := hhere.budget
          have hid : id.index < t.size := hhere.inTree
          rcases h.lookup hid with ⟨entry, _, hchildren, holder⟩
          rw [hchildren] at hfound
          cases hfound
          cases hhere.order with
          | @node _ _ orders hsame horders =>
              rw [hchildren] at hsame
              cases hsame
              have hbelow : List.Forall₂ t.Waits (entry.node.children.map (b, ·)) orders := by
                rw [List.forall₂_map_left_iff]
                refine List.forall₂_iff_zip.mpr ⟨horders.length_eq, fun {child order} hmem => ?_⟩
                have hless := holder child (List.of_mem_zip hmem).1
                exact {
                  budget := Nat.lt_of_lt_of_le hless (Nat.le_of_lt_succ hbudget)
                  inTree := Nat.lt_trans hless hid
                  order := (List.forall₂_iff_zip.mp horders).2 hmem }
              rw [ih (List.rel_append hbelow hwaits)]
              show Except.ok (id :: (orders ++ rest).flatten) = _
              rw [List.flatten_append]
              rfl

theorem ChildrenOlder.descendants_eq (h : t.ChildrenOlder) (hid : id.index < t.size)
    {order : List NodeId} (horder : t.PreOrder id order) : t.descendants id = .ok order := by
  have hstack : List.Forall₂ t.Waits [(t.budget, id)] [order] :=
    .cons ⟨Nat.lt_succ_of_lt hid, hid, horder⟩ .nil
  rw [descendants, h.visit_of_waits hstack, List.flatten_singleton]

end SyntaxTree
end Syntax
end ScriptHints
