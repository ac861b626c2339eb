import ScriptHints.Proofs.Tree.Walks

/-!
# Parents of added nodes

A node may be added with any ids for its parts: the same one twice, one that another node has
as well, its own, or one that no node has yet. Only nodes that are there are adopted, and the
last node that adopts another one is its parent. So the parent of a node is the youngest of the
younger nodes that have it for a child, and a walk upwards leads to younger and younger nodes,
even where a walk downwards goes in a circle.
-/

namespace ScriptHints
namespace Syntax
namespace SyntaxTree

variable {t : SyntaxTree} {id : NodeId}

def ofNodes (nodes : List (Node × Span)) : SyntaxTree :=
  nodes.foldl (fun t added => t.add added.1 added.2) empty

def adopters (t : SyntaxTree) (id : NodeId) : Set Nat :=
  {index | id.index < index ∧ t.IsChild ⟨index⟩ id}

def IsYoungestAdopter (t : SyntaxTree) (id : NodeId) : Option NodeId → Prop
  | none => t.adopters id = ∅
  | some parent => IsGreatest (t.adopters id) parent.index

def Adopted (t : SyntaxTree) : Prop :=
  forall id entry, t.get? id = some entry -> t.IsYoungestAdopter id entry.parent

/-!
## Additions
-/

theorem isChild_iff_get? {above : NodeId} :
    t.IsChild above id ↔ exists entry, t.get? above = some entry ∧ id ∈ entry.node.children := by
  constructor
  · intro h
    rcases exists_get?_of_index_lt (index_lt_of_isChild h) with ⟨entry, hentry⟩
    rcases h with ⟨children, hchildren, hmem⟩
    rw [children_of_get? hentry] at hchildren
    cases hchildren
    exact ⟨entry, hentry, hmem⟩
  · rintro ⟨entry, hentry, hmem⟩
    exact ⟨_, children_of_get? hentry, hmem⟩

theorem isChild_add_iff (node : Node) (span : Span) {above : NodeId} :
    (t.add node span).IsChild above id ↔
      (above = t.nextId ∧ id ∈ node.children) ∨ t.IsChild above id := by
  rw [isChild_iff_get?, isChild_iff_get?, get?_add]
  by_cases habove : above = t.nextId
  · rw [if_pos habove, habove, get?_nextId]
    simp
  · rw [if_neg habove]
    simp [habove, Entry.adoptedBy_node]

theorem adopters_lt_size {index : Nat} (h : index ∈ t.adopters id) : index < t.size :=
  index_lt_of_isChild h.2

theorem adopters_add (node : Node) (span : Span) (hid : id.index < t.size) :
    (t.add node span).adopters id =
      if id ∈ node.children then insert t.size (t.adopters id) else t.adopters id := by
  have hnew (index : Nat) : (⟨index⟩ : NodeId) = t.nextId ↔ index = t.size :=
    ⟨congrArg NodeId.index, congrArg NodeId.mk⟩
  ext index
  have hmem : index ∈ (t.add node span).adopters id ↔
      id.index < index ∧ (index = t.size ∧ id ∈ node.children ∨ t.IsChild ⟨index⟩ id) := by
    rw [← hnew, ← isChild_add_iff node span]
    rfl
  rw [hmem]
  split
  next hchild =>
    rw [Set.mem_insert_iff]
    constructor
    · rintro ⟨hyounger, ⟨hsize, _⟩ | hold⟩
      · exact .inl hsize
      · exact .inr ⟨hyounger, hold⟩
    · rintro (rfl | ⟨hyounger, hold⟩)
      · exact ⟨hid, .inl ⟨rfl, hchild⟩⟩
      · exact ⟨hyounger, .inr hold⟩
  next hchild =>
    constructor
    · rintro ⟨hyounger, ⟨_, hadopts⟩ | hold⟩
      · exact absurd hadopts hchild
      · exact ⟨hyounger, hold⟩
    · exact fun h => ⟨h.1, .inr h.2⟩

theorem adopters_add_nextId (node : Node) (span : Span) :
    (t.add node span).adopters t.nextId = ∅ := by
  apply Set.eq_empty_of_forall_notMem
  intro index hindex
  have hlt := adopters_lt_size hindex
  have hyounger : t.size < index := hindex.1
  rw [size_add] at hlt
  omega

theorem adopted_empty : empty.Adopted :=
  fun _ _ h => nomatch h

theorem Adopted.add (h : t.Adopted) (node : Node) (span : Span) : (t.add node span).Adopted := by
  intro id entry hentry
  rw [get?_add] at hentry
  split at hentry
  next hnew =>
    cases hentry
    rw [hnew]
    exact adopters_add_nextId node span
  next =>
    rcases Option.map_eq_some_iff.mp hentry with ⟨old, hold, rfl⟩
    have hid := index_lt_of_get? hold
    have hadopters := adopters_add node span hid
    unfold Entry.adoptedBy
    by_cases hchild : id ∈ node.children
    · rw [if_pos hchild] at hadopters ⊢
      show IsGreatest ((t.add node span).adopters id) t.size
      rw [hadopters]
      refine ⟨Set.mem_insert _ _, ?_⟩
      rintro index (rfl | hbefore)
      · exact Nat.le_refl _
      · exact Nat.le_of_lt (adopters_lt_size hbefore)
    · rw [if_neg hchild] at hadopters ⊢
      have hbefore := h id old hold
      unfold IsYoungestAdopter at hbefore ⊢
      rw [hadopters]
      exact hbefore

theorem foldl_add_induction {p : SyntaxTree → Prop}
    (hadd : forall t node span, p t -> p (t.add node span)) (nodes : List (Node × Span))
    (ht : p t) :
    p (nodes.foldl (fun t added => t.add added.1 added.2) t) := by
  induction nodes generalizing t with
  | nil => exact ht
  | cons added nodes ih => exact ih (hadd t added.1 added.2 ht)

theorem adopted_ofNodes (nodes : List (Node × Span)) : (ofNodes nodes).Adopted :=
  foldl_add_induction (fun _ node span h => h.add node span) nodes adopted_empty

theorem size_foldl_add (nodes : List (Node × Span)) (t : SyntaxTree) :
    (nodes.foldl (fun t added => t.add added.1 added.2) t).size = t.size + nodes.length := by
  induction nodes generalizing t with
  | nil => rfl
  | cons added nodes ih =>
      rw [List.foldl_cons, ih, size_add, List.length_cons]
      omega

theorem size_ofNodes (nodes : List (Node × Span)) : (ofNodes nodes).size = nodes.length := by
  rw [ofNodes, size_foldl_add, size_empty, Nat.zero_add]

/-!
## Parents
-/

theorem IsYoungestAdopter.unique {parent parent' : Option NodeId}
    (h : t.IsYoungestAdopter id parent) (h' : t.IsYoungestAdopter id parent') :
    parent = parent' := by
  cases parent with
  | none =>
      cases parent' with
      | none => rfl
      | some parent' =>
          have hmem : parent'.index ∈ t.adopters id := h'.1
          rw [show t.adopters id = ∅ from h] at hmem
          exact absurd hmem (Set.notMem_empty _)
  | some parent =>
      cases parent' with
      | none =>
          have hmem : parent.index ∈ t.adopters id := h.1
          rw [show t.adopters id = ∅ from h'] at hmem
          exact absurd hmem (Set.notMem_empty _)
      | some parent' =>
          have hindex : parent.index = parent'.index := IsGreatest.unique h h'
          exact congrArg (some ∘ NodeId.mk) hindex

theorem Adopted.parent_eq_iff (h : t.Adopted) (hid : id.index < t.size) (parent : Option NodeId) :
    t.parent id = .ok parent ↔ t.IsYoungestAdopter id parent := by
  rcases exists_get?_of_index_lt hid with ⟨entry, hentry⟩
  have hyoungest := h id entry hentry
  rw [parent_of_get? hentry]
  constructor
  · intro hparent
    cases hparent
    exact hyoungest
  · intro hparent
    rw [hyoungest.unique hparent]

theorem Adopted.index_lt_parent (h : t.Adopted) {parent : NodeId}
    (hparent : t.parent id = .ok (some parent)) :
    id.index < parent.index ∧ parent.index < t.size := by
  have hyoungest := (h.parent_eq_iff (index_lt_of_parent hparent) _).mp hparent
  have hmem : parent.index ∈ t.adopters id := hyoungest.1
  exact ⟨hmem.1, adopters_lt_size hmem⟩

/-!
## The walk upwards
-/

/-- A way from a node to its parent, to the parent of that, and on to a node without one. -/
inductive Ascends (t : SyntaxTree) : NodeId → List NodeId → Prop where
  | top {id : NodeId} : t.parent id = .ok none -> Ascends t id [id]
  | up {id parent : NodeId} {path : List NodeId} :
      t.parent id = .ok (some parent) -> Ascends t parent path -> Ascends t id (id :: path)

namespace Ascends

variable {path : List NodeId}

theorem head?_eq (h : t.Ascends id path) : path.head? = some id := by
  cases h <;> rfl

theorem exists_last (h : t.Ascends id path) :
    exists last, path.getLast? = some last ∧ t.parent last = .ok none := by
  induction h with
  | @top id htop => exact ⟨id, rfl, htop⟩
  | @up id parent path _ hrest ih =>
      rcases ih with ⟨last, hlast, htop⟩
      refine ⟨last, ?_, htop⟩
      rw [List.getLast?_cons, hlast]
      rfl

theorem isChain (h : t.Ascends id path) :
    path.IsChain fun below above => t.parent below = .ok (some above) := by
  induction h with
  | top _ => exact .singleton _
  | @up id parent path hparent hrest ih =>
      cases hrest with
      | top _ => exact .cons_cons hparent ih
      | up _ _ => exact .cons_cons hparent ih

end Ascends

/-- Each step upwards leaves one node fewer to go to, so the budget lasts to the end. -/
theorem Adopted.ancestorsWithin_ascends (h : t.Adopted) (hid : id.index < t.size) (b : Nat)
    (hbudget : t.size - id.index ≤ b) :
    Yields (t.ancestorsWithin b id) (t.Ascends id) := by
  induction b generalizing id with
  | zero => omega
  | succ b ih =>
      rcases exists_get?_of_index_lt hid with ⟨entry, hentry⟩
      have hparent := parent_of_get? hentry
      unfold ancestorsWithin
      cases hcase : entry.parent with
      | none =>
          rw [hcase] at hparent
          rw [hparent]
          exact ⟨[id], rfl, .top hparent⟩
      | some parent =>
          rw [hcase] at hparent
          rw [hparent]
          rcases h.index_lt_parent hparent with ⟨hyounger, hin⟩
          exact (ih hin (by omega)).map fun path hpath => .up hparent hpath

theorem Adopted.ancestors_ascends (h : t.Adopted) (hid : id.index < t.size) :
    Yields (t.ancestors id) (t.Ascends id) :=
  h.ancestorsWithin_ascends hid t.budget (Nat.le_succ_of_le (Nat.sub_le _ _))

theorem Adopted.pairwise_of_ascends (h : t.Adopted) {path : List NodeId}
    (hpath : t.Ascends id path) : path.Pairwise fun below above => below.index < above.index := by
  have hyounger : path.IsChain fun below above => below.index < above.index :=
    hpath.isChain.imp fun _ _ hparent => (h.index_lt_parent hparent).1
  exact List.isChain_iff_pairwise.mp hyounger

/--
However nodes are added to an empty tree, and whatever ids they have for their children: the parent
of a node is the youngest of the younger nodes that have it for a child, if there is one. The walk
upwards from a node goes from parent to parent to younger and younger nodes, and ends at a node
without a parent.
-/
theorem parent_ofNodes_iff (nodes : List (Node × Span)) (id : NodeId)
    (hid : id.index < nodes.length) :
    (forall parent, (ofNodes nodes).parent id = .ok (some parent) ↔
        IsGreatest ((ofNodes nodes).adopters id) parent.index) ∧
      ((ofNodes nodes).parent id = .ok none ↔ (ofNodes nodes).adopters id = ∅) ∧
      exists path last, (ofNodes nodes).ancestors id = .ok path ∧
        path.head? = some id ∧ path.getLast? = some last ∧
        (ofNodes nodes).parent last = .ok none ∧
        path.IsChain (fun below above => (ofNodes nodes).parent below = .ok (some above)) ∧
        path.Pairwise fun below above => below.index < above.index := by
  have hadopted := adopted_ofNodes nodes
  rw [← size_ofNodes] at hid
  refine ⟨fun parent => hadopted.parent_eq_iff hid (some parent),
    hadopted.parent_eq_iff hid none, ?_⟩
  rcases hadopted.ancestors_ascends hid with ⟨path, hpath, hascends⟩
  rcases hascends.exists_last with ⟨last, hlast, htop⟩
  exact ⟨path, last, hpath, hascends.head?_eq, hlast, htop, hascends.isChain,
    hadopted.pairwise_of_ascends hascends⟩

/-- A name that stands twice in a sum and once in a sequence, which has itself and a later block for
members as well. -/
def tangledNodes : List (Node × Span) :=
  [(.identifier "a", .none), (.binary .add ⟨0⟩ ⟨0⟩, .none),
    (.sequence [⟨0⟩, ⟨2⟩, ⟨3⟩], .none), (.block [⟨1⟩, ⟨2⟩], .none)]

theorem parent_ofNodes_iff_tangled :
    0 < tangledNodes.length ∧ IsGreatest ((ofNodes tangledNodes).adopters ⟨0⟩) 2 ∧
      (ofNodes tangledNodes).adopters ⟨3⟩ = ∅ ∧
      exists path last, (ofNodes tangledNodes).ancestors ⟨0⟩ = .ok path ∧
        path.head? = some ⟨0⟩ ∧ path.getLast? = some last ∧
        (ofNodes tangledNodes).parent last = .ok none ∧
        path.IsChain
          (fun below above => (ofNodes tangledNodes).parent below = .ok (some above)) ∧
        path.Pairwise fun below above => below.index < above.index := by
  rcases parent_ofNodes_iff tangledNodes ⟨0⟩ (by decide) with ⟨hparent, _, hpath⟩
  rcases parent_ofNodes_iff tangledNodes ⟨3⟩ (by decide) with ⟨_, hnone, _⟩
  exact ⟨by decide, (hparent ⟨2⟩).mp (by decide), hnone.mp (by decide), hpath⟩

end SyntaxTree
end Syntax
end ScriptHints
