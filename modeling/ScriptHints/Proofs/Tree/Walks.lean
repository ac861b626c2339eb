import ScriptHints.Proofs.Tree.Shape

/-!
# Walks through sound trees

In a sound tree every child and every parent is a node of the tree, children are older and
parents are younger than the node. So a walk never looks for a node that is missing and
never goes in a circle: what is asked about a node of the tree has an answer.
-/

namespace ScriptHints
namespace Syntax

/-- A look-up finds its node, and a walk comes to an end, with a result of this kind. -/
def Yields (x : Except TreeFault α) (post : α → Prop) : Prop :=
  exists a, x = .ok a ∧ post a

/-- No look-up on the way finds a node missing, and no walk on the way is endless. -/
def Faultless (x : Except TreeFault α) : Prop :=
  Yields x fun _ => True

namespace Yields

variable {x : Except TreeFault α} {post : α → Prop}

theorem pure {a : α} (h : post a) : Yields (pure a) post :=
  ⟨a, rfl, h⟩

theorem faultless (h : Yields x post) : Faultless x := by
  rcases h with ⟨a, ha, _⟩
  exact ⟨a, ha, trivial⟩

theorem bind {f : α → Except TreeFault β} {post' : β → Prop} (hx : Yields x post)
    (hf : forall a, post a -> Yields (f a) post') : Yields (x >>= f) post' := by
  rcases hx with ⟨a, rfl, ha⟩
  exact hf a ha

theorem map {f : α → β} {post' : β → Prop} (hx : Yields x post)
    (hf : forall a, post a -> post' (f a)) : Yields (x.map f) post' := by
  rcases hx with ⟨a, rfl, ha⟩
  exact ⟨f a, rfl, hf a ha⟩

theorem mapM {f : β → Except TreeFault α} {bs : List β}
    (h : forall b, b ∈ bs -> Yields (f b) post) :
    Yields (bs.mapM f) fun as => forall a, a ∈ as -> post a := by
  induction bs with
  | nil => exact .pure nofun
  | cons b bs ih =>
      rw [List.mapM_cons]
      apply (h b List.mem_cons_self).bind
      intro a ha
      apply (ih fun b' hb' => h b' (List.mem_cons_of_mem b hb')).bind
      intro as has
      apply Yields.pure
      intro a' hmem
      rcases List.mem_cons.mp hmem with rfl | htail
      · exact ha
      · exact has a' htail

end Yields

theorem exists_of_bind {x : Except TreeFault α} {f : α → Except TreeFault β} {b : β}
    (h : (x >>= f) = .ok b) : exists a, x = .ok a ∧ f a = .ok b := by
  cases x with
  | error fault => cases h
  | ok a => exact ⟨a, rfl, h⟩

theorem mapM_ok_iff {f : α → Except TreeFault β} {as : List α} {bs : List β} :
    as.mapM f = .ok bs ↔ List.Forall₂ (fun a b => f a = .ok b) as bs := by
  induction as generalizing bs with
  | nil =>
      constructor
      · intro h
        cases h
        exact .nil
      · intro h
        cases h
        rfl
  | cons a as ih =>
      rw [List.mapM_cons]
      constructor
      · intro h
        rcases exists_of_bind h with ⟨b, hb, h⟩
        rcases exists_of_bind h with ⟨rest, hrest, h⟩
        cases h
        exact .cons hb (ih.mp hrest)
      · intro h
        cases h with
        | cons hb hrest =>
            rw [hb, ih.mpr hrest]
            rfl

namespace SyntaxTree

variable {t : SyntaxTree} {id : NodeId}

/-!
## Look-ups
-/

theorem Sound.node_yields (h : t.Sound) (hid : id.index < t.size) :
    Yields (t.node id) fun node =>
      forall child, child ∈ node.children -> child.index < t.size := by
  rcases exists_get?_of_index_lt hid with ⟨entry, hentry⟩
  refine ⟨entry.node, node_of_get? hentry, ?_⟩
  intro child hchild
  exact Nat.lt_trans (h.children hentry child hchild) hid

theorem Sound.children_yields (h : t.Sound) (hid : id.index < t.size) :
    Yields (t.children id) fun children =>
      forall child, child ∈ children -> child.index < id.index := by
  rcases exists_get?_of_index_lt hid with ⟨entry, hentry⟩
  exact ⟨entry.node.children, children_of_get? hentry, h.children hentry⟩

theorem Sound.parent_yields (h : t.Sound) (hid : id.index < t.size) :
    Yields (t.parent id) fun parent =>
      forall above, parent = some above -> id.index < above.index ∧ above.index < t.size := by
  rcases exists_get?_of_index_lt hid with ⟨entry, hentry⟩
  exact ⟨entry.parent, parent_of_get? hentry, h.parent hentry⟩

theorem span_faultless (hid : id.index < t.size) : Faultless (t.span id) := by
  rcases exists_get?_of_index_lt hid with ⟨entry, hentry⟩
  exact ⟨entry.span, span_of_get? hentry, trivial⟩

theorem identifierName_faultless (hid : id.index < t.size) : Faultless (t.identifierName id) := by
  rcases exists_get?_of_index_lt hid with ⟨entry, hentry⟩
  refine ⟨entry.node.identifierName?, ?_, trivial⟩
  rw [identifierName, node_of_get? hentry]
  rfl

/-!
## Downwards
-/

/-- Whatever waits on the stack has a budget for the nodes below it, which are older. -/
theorem Sound.visit_yields (h : t.Sound) (stack : List (Nat × NodeId))
    (hstack : forall b id, (b, id) ∈ stack -> id.index < b ∧ id.index < t.size) :
    Yields (t.visit stack) fun ids => forall id, id ∈ ids -> id.index < t.size := by
  fun_induction SyntaxTree.visit t stack with
  | case1 => exact ⟨[], rfl, nofun⟩
  | case2 id stack =>
      have hbudget := (hstack 0 id List.mem_cons_self).1
      exact absurd hbudget (Nat.not_lt_zero _)
  | case3 b id stack fault hfault =>
      rcases h.children_yields (hstack _ id List.mem_cons_self).2 with ⟨children, hchildren, _⟩
      rw [hchildren] at hfault
      cases hfault
  | case4 b id stack children hfound ih =>
      have hhere := hstack (b + 1) id List.mem_cons_self
      rcases h.children_yields hhere.2 with ⟨_, hchildren, holder⟩
      rw [hfound] at hchildren
      cases hchildren
      have hbelow : forall b' id', (b', id') ∈ children.map (b, ·) ++ stack ->
          id'.index < b' ∧ id'.index < t.size := by
        intro b' id' hmem
        rcases List.mem_append.mp hmem with hchild | hwaits
        · rcases List.mem_map.mp hchild with ⟨child, hchild, heq⟩
          cases heq
          have hless := holder id' hchild
          exact ⟨by omega, by omega⟩
        · exact hstack b' id' (List.mem_cons_of_mem _ hwaits)
      apply (ih hbelow).map
      intro ids hids id' hmem
      rcases List.mem_cons.mp hmem with rfl | htail
      · exact hhere.2
      · exact hids id' htail

theorem Sound.descendants_yields (h : t.Sound) (hid : id.index < t.size) :
    Yields (t.descendants id) fun ids => forall below, below ∈ ids -> below.index < t.size := by
  apply h.visit_yields
  intro b id' hmem
  cases List.mem_singleton.mp hmem
  exact ⟨Nat.lt_succ_of_lt hid, hid⟩

theorem reaches_iff_of_children {children : List NodeId} (h : t.children id = .ok children)
    (other : NodeId) :
    t.Reaches id other ↔ other = id ∨ exists child, child ∈ children ∧ t.Reaches child other := by
  constructor
  · intro hreaches
    rcases hreaches.cases_head with rfl | ⟨child, ⟨children', hchildren', hchild⟩, hbelow⟩
    · exact .inl rfl
    · rw [h] at hchildren'
      cases hchildren'
      exact .inr ⟨child, hchild, hbelow⟩
  · rintro (rfl | ⟨child, hchild, hbelow⟩)
    · exact .refl
    · exact .head ⟨children, h, hchild⟩ hbelow

/-- The walk comes to what the nodes on the stack reach, and to nothing else. -/
theorem mem_visit_iff {stack : List (Nat × NodeId)} {ids : List NodeId}
    (h : t.visit stack = .ok ids) (other : NodeId) :
    other ∈ ids ↔ exists id, id ∈ stack.map Prod.snd ∧ t.Reaches id other := by
  fun_induction SyntaxTree.visit t stack generalizing ids with
  | case1 =>
      cases h
      simp
  | case2 => cases h
  | case3 => cases h
  | case4 b id stack children hfound ih =>
      cases hrest : t.visit (children.map (b, ·) ++ stack) with
      | error fault =>
          rw [hrest] at h
          cases h
      | ok rest =>
          rw [hrest] at h
          cases h
          have hwaiting : (children.map (b, ·) ++ stack).map Prod.snd =
              children ++ stack.map Prod.snd := by
            simp [Function.comp_def]
          rw [List.mem_cons, ih hrest, hwaiting]
          simp only [List.map_cons, List.mem_append, List.mem_cons, or_and_right, exists_or,
            exists_eq_left, reaches_iff_of_children hfound, or_assoc]

theorem mem_descendants_iff {ids : List NodeId} (h : t.descendants id = .ok ids) (other : NodeId) :
    other ∈ ids ↔ t.Reaches id other := by
  rw [mem_visit_iff h]
  simp

/-!
## Upwards
-/

/-- The way upwards ends at a node without a parent before the budget does. -/
theorem Sound.ancestorsWithin_yields (h : t.Sound) (hid : id.index < t.size) (b : Nat)
    (hbudget : t.size - id.index ≤ b) :
    Yields (t.ancestorsWithin b id) fun path => forall above, above ∈ path ->
      above.index < t.size := by
  induction b generalizing id with
  | zero => omega
  | succ b ih =>
      rcases h.parent_yields hid with ⟨parent, hparent, hyounger⟩
      unfold ancestorsWithin
      rw [hparent]
      cases parent with
      | none =>
          apply Yields.pure
          intro above habove
          cases List.mem_singleton.mp habove
          exact hid
      | some parent =>
          rcases hyounger parent rfl with ⟨hless, hin⟩
          apply (ih hin (by omega)).map
          intro path hpath above habove
          rcases List.mem_cons.mp habove with rfl | htail
          · exact hid
          · exact hpath above htail

theorem Sound.ancestors_yields (h : t.Sound) (hid : id.index < t.size) :
    Yields (t.ancestors id) fun path => forall above, above ∈ path -> above.index < t.size :=
  h.ancestorsWithin_yields hid t.budget (Nat.le_succ_of_le (Nat.sub_le _ _))

/-!
## Inwards
-/

theorem findCovering_yields (line column : Nat) {ids : List NodeId}
    (hids : forall id, id ∈ ids -> id.index < t.size) :
    Yields (t.findCovering line column ids) fun found =>
      forall id, found = some id -> id ∈ ids := by
  induction ids with
  | nil => exact ⟨none, rfl, nofun⟩
  | cons id ids ih =>
      rcases span_faultless (hids id List.mem_cons_self) with ⟨span, hspan, _⟩
      unfold findCovering
      simp only [hspan]
      split
      next =>
        refine ⟨some id, rfl, ?_⟩
        rintro _ ⟨rfl⟩
        exact List.mem_cons_self
      next =>
        rcases ih fun id' hid' => hids id' (List.mem_cons_of_mem id hid') with
          ⟨found, hfound, hmem⟩
        exact ⟨found, hfound, fun id' heq => List.mem_cons_of_mem id (hmem id' heq)⟩

theorem Sound.innermostWithin_faultless (h : t.Sound) (line column : Nat)
    (hid : id.index < t.size) (b : Nat) (hbudget : id.index < b) :
    Faultless (t.innermostWithin line column b id) := by
  induction b generalizing id with
  | zero => exact absurd hbudget (Nat.not_lt_zero _)
  | succ b ih =>
      rcases h.children_yields hid with ⟨children, hchildren, holder⟩
      have hin : forall child, child ∈ children -> child.index < t.size := by
        intro child hchild
        exact Nat.lt_trans (holder child hchild) hid
      rcases findCovering_yields line column hin with ⟨found, hfound, hmem⟩
      unfold innermostWithin
      simp only [hchildren, hfound]
      cases found with
      | none => exact ⟨id, rfl, trivial⟩
      | some child =>
          have hchild := hmem child rfl
          exact ih (hin child hchild) (Nat.lt_of_lt_of_le (holder child hchild)
            (Nat.le_of_lt_succ hbudget))

theorem Sound.nodeAt_faultless (h : t.Sound)
    (hroot : forall root, t.root = some root -> root.index < t.size) (line column : Nat) :
    Faultless (t.nodeAt line column) := by
  unfold nodeAt
  cases hfound : t.root with
  | none => exact ⟨none, rfl, trivial⟩
  | some root =>
      have hin : forall id, id ∈ [root] -> id.index < t.size := by
        intro id hid
        cases List.mem_singleton.mp hid
        exact hroot root hfound
      rcases findCovering_yields line column hin with ⟨found, hcovering, hmem⟩
      simp only [hcovering]
      cases found with
      | none => exact ⟨none, rfl, trivial⟩
      | some id =>
          have hid := hin id (hmem id rfl)
          exact (h.innermostWithin_faultless line column hid t.budget
            (Nat.lt_succ_of_lt hid)).map fun _ _ => trivial

end SyntaxTree
end Syntax
end ScriptHints
