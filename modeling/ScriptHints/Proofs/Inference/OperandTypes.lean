import ScriptHints.Proofs.Inference.Answers

/-!
# What the fold of operands tells

The fold goes through the operands in the order of the text, but what it tells depends on which
operands there are only. In a parsed tree there is always one to go through, so joined operands
have a type that the standard registry declares.
-/

namespace ScriptHints

namespace Syntax

namespace Node

def isString : Node → Bool
  | .string _ _ => true
  | _ => false

def isNumber : Node → Bool
  | .number _ _ => true
  | _ => false

end Node

/-- Those of the nodes that join nothing, as often as they stand there. -/
def SyntaxTree.operandsOf (t : SyntaxTree) (ids : Finset NodeId) : Multiset Node :=
  (ids.val.filterMap fun id => (t.get? id).map (·.node)).filter fun node => node.isJoined = false

theorem SyntaxTree.mem_operandsOf_iff (t : SyntaxTree) (ids : Finset NodeId) (node : Node) :
    node ∈ t.operandsOf ids ↔
      node.isJoined = false ∧ exists id, id ∈ ids ∧ t.node id = .ok node := by
  have hfound (id : NodeId) : (t.get? id).map (·.node) = some node ↔ t.node id = .ok node := by
    cases hentry : t.get? id with
    | none =>
        unfold SyntaxTree.node SyntaxTree.entry
        rw [hentry]
        simp [Except.map]
    | some entry =>
        rw [node_of_get? hentry]
        simp
  unfold operandsOf
  rw [Multiset.mem_filter, Multiset.mem_filterMap, and_comm]
  simp only [hfound, Finset.mem_val]

end Syntax

namespace Inference

open Syntax TypeInfo

section

variable (p : Node → Bool)

instance (operands : Multiset Node) : Decidable (exists node, node ∈ operands ∧ p node = true) :=
  Multiset.decidableExistsMultiset

instance (operands : Multiset Node) : Decidable (forall node, node ∈ operands -> p node = true) :=
  Multiset.decidableForallMultiset

end

/-- One text makes the whole a text, and numbers alone make it a number. -/
def typeOfAll (operands : Multiset Node) : Option CanonicalType :=
  if Multiset.card operands = 0 then none
  else if exists node, node ∈ operands ∧ node.isString = true then some .string
  else if forall node, node ∈ operands -> node.isNumber = true then some .number
  else some .any

/-!
## Operands in any order
-/

theorem typeOfAll_congr {operands operands' : Multiset Node}
    (h : forall node, node ∈ operands ↔ node ∈ operands') :
    typeOfAll operands = typeOfAll operands' := by
  have hnone : Multiset.card operands = 0 ↔ Multiset.card operands' = 0 := by
    rw [Multiset.card_eq_zero, Multiset.card_eq_zero, Multiset.eq_zero_iff_forall_notMem,
      Multiset.eq_zero_iff_forall_notMem]
    simp only [h]
  unfold typeOfAll
  simp only [hnone, h]

section

variable {operands : Multiset Node} {node : Node}

theorem typeOfAll_of_string (hmem : node ∈ operands) (h : node.isString = true) :
    typeOfAll operands = some .string := by
  unfold typeOfAll
  rw [if_neg (Multiset.card_pos_iff_exists_mem.mpr ⟨node, hmem⟩).ne', if_pos ⟨node, hmem, h⟩]

theorem isString_of_isNumber (h : node.isNumber = true) : node.isString = false := by
  cases node <;> first | rfl | cases h

theorem typeOfAll_of_numbers (hsome : operands ≠ 0)
    (h : forall node, node ∈ operands -> node.isNumber = true) :
    typeOfAll operands = some .number := by
  have hstring : ¬ exists node, node ∈ operands ∧ node.isString = true := by
    rintro ⟨node, hmem, hstring⟩
    rw [isString_of_isNumber (h node hmem)] at hstring
    cases hstring
  unfold typeOfAll
  rw [if_neg (mt Multiset.card_eq_zero.mp hsome), if_neg hstring, if_pos h]

theorem typeOfAll_of_other (hstring : ¬ exists node, node ∈ operands ∧ node.isString = true)
    (hmem : node ∈ operands) (h : node.isNumber = false) : typeOfAll operands = some .any := by
  have hnumbers : ¬ forall node, node ∈ operands -> node.isNumber = true := by
    intro hall
    rw [hall node hmem] at h
    cases h
  unfold typeOfAll
  rw [if_neg (Multiset.card_pos_iff_exists_mem.mpr ⟨node, hmem⟩).ne', if_neg hstring,
    if_neg hnumbers]

theorem typeOfAll_ne_string (hstring : ¬ exists node, node ∈ operands ∧ node.isString = true) :
    typeOfAll operands ≠ some .string := by
  unfold typeOfAll
  rw [if_neg hstring]
  split
  next => exact nofun
  next => split <;> exact nofun

theorem typeOfAll_of_ne_zero (hsome : operands ≠ 0) :
    exists type, typeOfAll operands = some type := by
  unfold typeOfAll
  rw [if_neg (mt Multiset.card_eq_zero.mp hsome)]
  split
  next => exact ⟨.string, rfl⟩
  next =>
    split
    next => exact ⟨.number, rfl⟩
    next => exact ⟨.any, rfl⟩

end

/-!
## The fold
-/

theorem foldOperand_text (node : Node) : foldOperand (some .string) node = some .string := by
  cases node <;> rfl

theorem foldOperand_number (known : Option CanonicalType) {node : Node} (h : node.isNumber = true) :
    foldOperand known node = some (known.getD .number) := by
  cases node with
  | number => cases known <;> rfl
  | _ => cases h

theorem foldOperand_other {known : Option CanonicalType} {node : Node}
    (hknown : known ≠ some .string)
    (hjoined : node.isJoined = false) (hstring : node.isString = false)
    (hnumber : node.isNumber = false) : foldOperand known node = some .any := by
  unfold foldOperand
  rw [if_neg (by simp [hjoined])]
  split
  next => cases hstring
  next => cases hnumber
  next => cases hnumber
  next => exact absurd rfl hknown
  next => rfl

theorem typeOfAll_cons (operands : Multiset Node) {node : Node} (h : node.isJoined = false) :
    typeOfAll (node ::ₘ operands) = foldOperand (typeOfAll operands) node := by
  have hhere : node ∈ node ::ₘ operands := Multiset.mem_cons_self node operands
  by_cases hstring : exists other, other ∈ operands ∧ other.isString = true
  · rcases hstring with ⟨other, hother, hstring⟩
    rw [typeOfAll_of_string hother hstring, foldOperand_text]
    exact typeOfAll_of_string (Multiset.mem_cons_of_mem hother) hstring
  cases hkind : node.isString with
  | true =>
      rw [typeOfAll_of_string hhere hkind]
      cases node <;> first | rfl | cases hkind
  | false =>
      have hnone : ¬ exists other, other ∈ node ::ₘ operands ∧ other.isString = true := by
        rintro ⟨other, hother, hstring'⟩
        rcases Multiset.mem_cons.mp hother with rfl | hother
        · rw [hkind] at hstring'
          cases hstring'
        · exact hstring ⟨other, hother, hstring'⟩
      cases hnumber : node.isNumber with
      | false =>
          rw [typeOfAll_of_other hnone hhere hnumber,
            foldOperand_other (typeOfAll_ne_string hstring) h hkind hnumber]
      | true =>
          rw [foldOperand_number _ hnumber]
          by_cases hnumbers : forall other, other ∈ operands -> other.isNumber = true
          · have hall : forall other, other ∈ node ::ₘ operands -> other.isNumber = true :=
              Multiset.forall_mem_cons.mpr ⟨hnumber, hnumbers⟩
            rw [typeOfAll_of_numbers (Multiset.cons_ne_zero) hall]
            by_cases hzero : operands = 0
            · rw [hzero]
              rfl
            · rw [typeOfAll_of_numbers hzero hnumbers]
              rfl
          · simp only [not_forall, Bool.not_eq_true] at hnumbers
            rcases hnumbers with ⟨other, hother, hnumber'⟩
            rw [typeOfAll_of_other hstring hother hnumber']
            exact typeOfAll_of_other hnone (Multiset.mem_cons_of_mem hother) hnumber'

theorem foldl_foldOperand (operands : Multiset Node) (nodes : List Node) :
    nodes.foldl foldOperand (typeOfAll operands) =
      typeOfAll (operands + Multiset.filter (fun node => node.isJoined = false) nodes) := by
  induction nodes generalizing operands with
  | nil => simp
  | cons node nodes ih =>
      rw [List.foldl_cons, ← Multiset.cons_coe]
      cases hjoined : node.isJoined with
      | true =>
          have hsame : foldOperand (typeOfAll operands) node = typeOfAll operands := by
            unfold foldOperand
            rw [if_pos hjoined]
          have hnodes : Multiset.filter (fun node => node.isJoined = false)
              (node ::ₘ (nodes : Multiset Node)) =
                Multiset.filter (fun node => node.isJoined = false) nodes :=
            Multiset.filter_cons_of_neg _ (by simp [hjoined])
          rw [hsame, ih, hnodes]
      | false =>
          have hnodes : Multiset.filter (fun node => node.isJoined = false)
              (node ::ₘ (nodes : Multiset Node)) =
                node ::ₘ Multiset.filter (fun node => node.isJoined = false) nodes :=
            Multiset.filter_cons_of_pos _ hjoined
          rw [← typeOfAll_cons operands hjoined, ih, hnodes, Multiset.cons_add, Multiset.add_cons]

/-!
## Operands below a node
-/

theorem mem_of_mapM_ok {f : β → Except TreeFault α} {bs : List β} {as : List α}
    (h : bs.mapM f = .ok as) (a : α) : a ∈ as ↔ exists b, b ∈ bs ∧ f b = .ok a := by
  induction mapM_ok_iff.mp h with
  | nil => simp
  | @cons b a' bs as hhere hrest ih =>
      have hsame : a = a' ↔ f b = .ok a := by
        rw [hhere, Except.ok.injEq, eq_comm]
      rw [List.mem_cons, ih (mapM_ok_iff.mpr hrest), hsame]
      simp

theorem operandType_eq {t : SyntaxTree} (h : t.Sound) {id : NodeId} (hid : id.index < t.size) :
    exists below : Finset NodeId, (forall other, other ∈ below ↔ t.Reaches id other) ∧
      operandType t id = .ok (typeOfAll (t.operandsOf below)) := by
  rcases h.descendants_yields hid with ⟨ids, hids, hin⟩
  rcases Yields.mapM fun other hother => h.node_yields (hin other hother) with ⟨nodes, hnodes, _⟩
  refine ⟨ids.toFinset, fun other => ?_, ?_⟩
  · rw [List.mem_toFinset]
    exact SyntaxTree.mem_descendants_iff hids other
  · have hfold : operandType t id = .ok (nodes.foldl foldOperand (typeOfAll 0)) := by
      unfold operandType
      rw [hids]
      show (ids.mapM t.node >>= fun nodes => _) = _
      rw [hnodes]
      rfl
    rw [hfold, foldl_foldOperand]
    apply congrArg
    apply typeOfAll_congr
    intro node
    rw [Multiset.zero_add, Multiset.mem_filter, Multiset.mem_coe, mem_of_mapM_ok hnodes,
      SyntaxTree.mem_operandsOf_iff, and_comm]
    simp only [List.mem_toFinset]

theorem exists_operand_below {t : SyntaxTree} (h : t.Sound) (hfilled : t.Filled) (id : NodeId)
    (hid : id.index < t.size) :
    exists other node, t.Reaches id other ∧ t.node other = .ok node ∧ node.isJoined = false := by
  induction hindex : id.index using Nat.strongRecOn generalizing id with
  | ind index ih =>
      rcases SyntaxTree.exists_get?_of_index_lt hid with ⟨entry, hentry⟩
      cases hjoined : entry.node.isJoined with
      | false => exact ⟨id, entry.node, .refl, SyntaxTree.node_of_get? hentry, hjoined⟩
      | true =>
          rcases List.exists_mem_of_ne_nil _ (hfilled.children hentry hjoined) with ⟨child, hchild⟩
          have holder := h.children hentry child hchild
          rcases ih child.index (hindex ▸ holder) child (holder.trans hid) rfl with
            ⟨other, node, hreaches, hnode⟩
          exact ⟨other, node, .head ⟨_, SyntaxTree.children_of_get? hentry, hchild⟩ hreaches, hnode⟩

/-- The standard registry declares every type that is told without a name. -/
theorem lookupCanonical_standard (type : CanonicalType) :
    exists d, Registry.standard.lookupCanonical type = some d := by
  unfold Registry.lookupCanonical Registry.standard
  simp only [Registry.builtins, List.map, List.foldl, Registry.lookup_insert]
  cases type <;> simp [CanonicalType.name]

/-- Operations and sequences have the type of their operands, unless a catch clause catches them. -/
theorem classify_of_operation (s : Setting) {t : SyntaxTree} (h : t.Sound) {id : NodeId}
    {node : Node} (hnode : t.node id = .ok node)
    (hform : (exists operator left right, node = .binary operator left right) ∨
      exists expressions, node = .sequence expressions) :
    classify s t id = .ok (s.registry.lookupCanonical .error) ∨
      classify s t id = operandDeclaration s.registry t id := by
  cases hentry : t.get? id with
  | none =>
      unfold SyntaxTree.node SyntaxTree.entry at hnode
      rw [hentry] at hnode
      cases hnode
  | some entry =>
      rw [SyntaxTree.node_of_get? hentry] at hnode
      cases hnode
      rcases isCatchParameter_faultless h (SyntaxTree.index_lt_of_get? hentry) with
        ⟨caught, hcaught, _⟩
      unfold classify
      rw [hentry]
      rcases hform with ⟨operator, left, right, hform⟩ | ⟨expressions, hform⟩
      all_goals
        simp only [hform]
        rw [hcaught]
        cases caught with
        | true => exact .inl rfl
        | false => exact .inr rfl

/--
The type of joined operands depends only on the operands below the node, each taken as often as it
stands there: a text makes the whole a text, and otherwise numbers alone make it a number. In a
parsed tree there is an operand below every operation and every sequence, so that the standard
registry has a type for it.
-/
theorem parsed_operandType (text : String) (o : Grammar.Options) (tree : SyntaxTree)
    (h : Grammar.Parses text o tree) (id : NodeId) (hid : id.index < tree.size) :
    exists below : Finset NodeId, (forall other, other ∈ below ↔ tree.Reaches id other) ∧
      operandType tree id = .ok (typeOfAll (tree.operandsOf below)) ∧
      forall node, tree.node id = .ok node ->
        ((exists operator left right, node = .binary operator left right) ∨
          exists expressions, node = .sequence expressions) ->
        tree.operandsOf below ≠ 0 ∧
          forall resolve, exists d, classify ⟨.standard, resolve⟩ tree id = .ok (some d) := by
  rcases Grammar.whole_of_parses h with ⟨stream, root, f, _, hwhole⟩
  rcases operandType_eq hwhole.sound hid with ⟨below, hbelow, htype⟩
  refine ⟨below, hbelow, htype, ?_⟩
  intro node hnode hform
  have hsome : tree.operandsOf below ≠ 0 := by
    rcases exists_operand_below hwhole.sound hwhole.filled id hid with
      ⟨other, operand, hreaches, hoperand, hjoined⟩
    intro hzero
    apply Multiset.notMem_zero operand
    rw [← hzero, SyntaxTree.mem_operandsOf_iff]
    exact ⟨hjoined, other, (hbelow other).mpr hreaches, hoperand⟩
  refine ⟨hsome, fun resolve => ?_⟩
  rcases typeOfAll_of_ne_zero hsome with ⟨type, htyped⟩
  rcases lookupCanonical_standard type with ⟨d, hd⟩
  have hdeclared : operandDeclaration .standard tree id = .ok (some d) := by
    unfold operandDeclaration
    rw [htype, htyped]
    exact congrArg Except.ok hd
  rcases classify_of_operation ⟨.standard, resolve⟩ hwhole.sound hnode hform with hclass | hclass
  · rcases lookupCanonical_standard .error with ⟨e, he⟩
    rw [hclass]
    exact ⟨e, congrArg Except.ok he⟩
  · rw [hclass]
    exact ⟨d, hdeclared⟩

def operationTree : SyntaxTree :=
  { entries := #[⟨.identifier "a", ⟨1, 1, 1, 1⟩, some ⟨2⟩⟩,
      ⟨.string "b" '\"', ⟨1, 5, 1, 7⟩, some ⟨2⟩⟩,
      ⟨.binary .add ⟨0⟩ ⟨1⟩, ⟨1, 1, 1, 7⟩, some ⟨4⟩⟩,
      ⟨.identifier "c", ⟨1, 10, 1, 10⟩, some ⟨4⟩⟩,
      ⟨.sequence [⟨2⟩, ⟨3⟩], ⟨1, 1, 1, 10⟩, none⟩]
    root := some ⟨4⟩ }

theorem parseExpression_operation :
    Grammar.parseExpression "a + \"b\", c" .strict = .ok operationTree := by
  cbv

theorem parsed_operandType_operation :
    exists below : Finset NodeId,
      (forall other, other ∈ below ↔ operationTree.Reaches ⟨4⟩ other) ∧
      operandType operationTree ⟨4⟩ = .ok (typeOfAll (operationTree.operandsOf below)) ∧
      operationTree.operandsOf below ≠ 0 ∧
      forall resolve, exists d, classify ⟨.standard, resolve⟩ operationTree ⟨4⟩ = .ok (some d) := by
  rcases parsed_operandType "a + \"b\", c" .strict operationTree
    (.inr parseExpression_operation) ⟨4⟩
    (by decide) with ⟨below, hbelow, htype, hclass⟩
  exact ⟨below, hbelow, htype, hclass (.sequence [⟨2⟩, ⟨3⟩]) rfl (.inr ⟨_, rfl⟩)⟩

end Inference
end ScriptHints
