import ScriptHints.Command.Run
import ScriptHints.Proofs.Tree.PreOrder

/-!
# Listings of trees

A tree is listed in lines by going into one child after the other, and in JSON by a walk with a
stack. Both listings tell of the same nodes in the same order, if every node of the tree is
younger than its children.
-/

namespace ScriptHints
namespace Command

open Grammar Json Syntax SyntaxTree

variable {t : SyntaxTree} {id : NodeId}

/-- The line tells of the node, at some depth. -/
def LineOf (t : SyntaxTree) (id : NodeId) (line : String) : Prop :=
  exists depth entry, t.get? id = some entry ∧ line = nodeLine depth entry

def ValueOf (t : SyntaxTree) (id : NodeId) (value : Value) : Prop :=
  nodeValue t id = .ok value

/-!
## Lines
-/

/-- What is asked of each part and of what belongs to it can be asked of two lists of results. -/
theorem exists_between {S : α → γ → Prop} {P : α → β → Prop} {R : γ → β → Prop} {as : List α}
    {cs : List γ} (h : List.Forall₂ S as cs)
    (hstep : forall a c, a ∈ as -> S a c -> exists b, P a b ∧ R c b) :
    exists bs, List.Forall₂ P as bs ∧ List.Forall₂ R cs bs := by
  induction h with
  | nil => exact ⟨[], .nil, .nil⟩
  | @cons a c as cs hac _ ih =>
      rcases hstep a c List.mem_cons_self hac with ⟨b, hab, hcb⟩
      rcases ih fun a' c' ha' => hstep a' c' (List.mem_cons_of_mem a ha') with ⟨bs, hP, hR⟩
      exact ⟨b :: bs, .cons hab hP, .cons hcb hR⟩

theorem outlineWithin_of_preOrder (h : t.ChildrenOlder) (b depth : Nat) (hbudget : id.index < b)
    (hid : id.index < t.size) {order : List NodeId} (horder : t.PreOrder id order) :
    exists texts, outlineWithin t b depth id = .ok texts ∧
      List.Forall₂ (LineOf t) order texts := by
  induction b generalizing id depth order with
  | zero => exact absurd hbudget (Nat.not_lt_zero _)
  | succ b ih =>
      rcases h.lookup hid with ⟨entry, hentry, hchildren, holder⟩
      cases horder with
      | @node _ _ orders hsame horders =>
          rw [hchildren] at hsame
          cases hsame
          have hstep : forall child order, child ∈ entry.node.children -> t.PreOrder child order ->
              exists texts, outlineWithin t b (depth + 1) child = .ok texts ∧
                List.Forall₂ (LineOf t) order texts := by
            intro child order hchild hbelow
            have hless := holder child hchild
            exact ih (depth + 1) (by omega) (by omega) hbelow
          rcases exists_between horders hstep with ⟨below, hbelow, hlines⟩
          have hentry' : t.entry id = .ok entry := by
            unfold SyntaxTree.entry
            rw [hentry]
          refine ⟨nodeLine depth entry :: below.flatten, ?_, ?_⟩
          · unfold outlineWithin
            rw [hentry']
            show (entry.node.children.mapM (outlineWithin t b (depth + 1)) >>= fun below => _) = _
            rw [mapM_ok_iff.mpr hbelow]
            rfl
          · exact .cons ⟨depth, entry, hentry, rfl⟩ (List.rel_flatten hlines)

theorem outline_of_preOrder (h : t.ChildrenOlder) (hid : id.index < t.size) {order : List NodeId}
    (horder : t.PreOrder id order) :
    exists texts, outline t id = .ok texts ∧ List.Forall₂ (LineOf t) order texts :=
  outlineWithin_of_preOrder h t.budget 0 (Nat.lt_succ_of_lt hid) hid horder

/-!
## JSON
-/

theorem exists_valueOf (hid : id.index < t.size) : exists value, ValueOf t id value := by
  rcases exists_get?_of_index_lt hid with ⟨entry, hentry⟩
  unfold ValueOf nodeValue SyntaxTree.entry
  rw [hentry]
  exact ⟨_, rfl⟩

theorem nodesValue_of_preOrder (h : t.ChildrenOlder) (hid : id.index < t.size)
    {order : List NodeId} (horder : t.PreOrder id order) :
    exists values, nodesValue t id = .ok (.array values) ∧
      List.Forall₂ (ValueOf t) order values := by
  have hwalk := h.descendants_eq hid horder
  have hvalues : forall id, id ∈ order -> exists value, ValueOf t id value :=
    fun id hmem => exists_valueOf ((unwinds_of_visit hwalk).index_lt hmem)
  rcases exists_forall₂ hvalues with ⟨values, hvalues⟩
  refine ⟨values, ?_, hvalues⟩
  unfold nodesValue
  rw [hwalk]
  show (order.mapM (nodeValue t) >>= fun values => _) = _
  rw [mapM_ok_iff.mpr hvalues]
  rfl

/-!
## Both listings
-/

/--
In a tree in which every node is younger than its children, the walk with a stack comes to an end,
to the nodes that stand in the order that is told recursively, and the lines and the JSON of a
listing tell of just these nodes in this order.
-/
theorem listings_agree (t : SyntaxTree) (h : t.ChildrenOlder) (id : NodeId)
    (hid : id.index < t.size) :
    exists order, t.PreOrder id order ∧ (forall order', t.PreOrder id order' -> order' = order) ∧
      t.Unwinds [id] order ∧ t.descendants id = .ok order ∧
      (exists texts, outline t id = .ok texts ∧ List.Forall₂ (LineOf t) order texts) ∧
      exists values, nodesValue t id = .ok (.array values) ∧
        List.Forall₂ (ValueOf t) order values := by
  rcases h.exists_preOrder hid with ⟨order, horder⟩
  have hwalk := h.descendants_eq hid horder
  exact ⟨order, horder, fun _ horder' => h.preOrder_unique hid horder' horder,
    unwinds_of_visit hwalk, hwalk, outline_of_preOrder h hid horder,
    nodesValue_of_preOrder h hid horder⟩

def sharedTree : SyntaxTree :=
  { entries := #[⟨.identifier "a", .none, some ⟨1⟩⟩, ⟨.binary .add ⟨0⟩ ⟨0⟩, .none, none⟩,
      ⟨.sequence [⟨1⟩, ⟨0⟩], .none, none⟩]
    root := some ⟨2⟩ }

theorem childrenOlder_sharedTree : sharedTree.ChildrenOlder := by
  have hall : forall i : Fin 3,
      forall child, child ∈ (sharedTree.entries[i]).node.children -> child.index < i := by decide
  intro id entry hentry child hchild
  have hid : id.index < 3 := index_lt_of_get? hentry
  cases (Array.getElem?_eq_getElem hid).symm.trans hentry
  exact hall ⟨id.index, hid⟩ child hchild

theorem listings_agree_sharedTree :
    sharedTree.ChildrenOlder ∧ 2 < sharedTree.size ∧
      exists order, sharedTree.PreOrder ⟨2⟩ order ∧
        (forall order', sharedTree.PreOrder ⟨2⟩ order' -> order' = order) ∧
        sharedTree.Unwinds [⟨2⟩] order ∧ sharedTree.descendants ⟨2⟩ = .ok order ∧
        (exists texts, outline sharedTree ⟨2⟩ = .ok texts ∧
          List.Forall₂ (LineOf sharedTree) order texts) ∧
        exists values, nodesValue sharedTree ⟨2⟩ = .ok (.array values) ∧
          List.Forall₂ (ValueOf sharedTree) order values :=
  ⟨childrenOlder_sharedTree, by decide,
    listings_agree sharedTree childrenOlder_sharedTree ⟨2⟩ (by decide)⟩

/-- The command that lists the tree of a script tells of the same nodes, whether it writes lines or
JSON. -/
theorem runTree_listings {source : Source} {recover : Bool} {tree : SyntaxTree} {ds : Diagnostics}
    (h : parseScript source.text { recover := recover, report := true } = .ok (tree, ds)) :
    exists root order texts values errors, tree.root = some root ∧ tree.PreOrder root order ∧
      runTree false recover source = .ok { output := lines texts, errors := errors } ∧
      runTree true recover source =
        .ok { output := (Value.array values).text ++ "\n", errors := errors } ∧
      List.Forall₂ (LineOf tree) order texts ∧ List.Forall₂ (ValueOf tree) order values := by
  rcases whole_of_parses (.inl ⟨ds, h⟩) with ⟨_, root, _, _, hwhole⟩
  have holder : tree.ChildrenOlder := fun _ _ hentry => hwhole.sound.children hentry
  rcases holder.exists_preOrder hwhole.root_lt with ⟨order, horder⟩
  rcases outline_of_preOrder holder hwhole.root_lt horder with ⟨texts, htexts, hlines⟩
  rcases nodesValue_of_preOrder holder hwhole.root_lt horder with ⟨values, hvalues, hjson⟩
  refine ⟨root, order, texts, values,
    Command.lines (ds.toList.flatMap (diagnosticLines source.path (linesOf source.text))),
    hwhole.top, horder, ?_, ?_, hlines, hjson⟩
  · simp only [runTree, h, Except.mapError, bind, Except.bind, hwhole.top, htexts, faultless]
    rfl
  · simp only [runTree, h, Except.mapError, bind, Except.bind, hwhole.top, hvalues, faultless]
    rfl

end Command
end ScriptHints
