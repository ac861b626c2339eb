import ScriptHints.Inference.EnteredText
import ScriptHints.Inference.SelfReference
import ScriptHints.Inference.Signature
import ScriptHints.Proofs.Tree.Printed

/-!
# Answers about nodes

Everything that is asked about a node of a sound tree has an answer: its signature key, its
type, and whether a variable may be resolved. The same goes for every text that is being
entered, because the trees that are read from it are sound.
-/

namespace ScriptHints
namespace Inference

open Grammar Syntax TypeInfo

variable {t : SyntaxTree} {id : NodeId}

/-!
## Signatures
-/

theorem mem_children_of_callShape? {node : Node} {target : NodeId} {arity : Nat}
    (h : callShape? node = some (target, arity)) : target ∈ node.children := by
  cases node with
  | call | construction =>
      cases h
      exact List.mem_cons_self
  | _ => cases h

theorem exists_of_firstCall? {nodes : List Node} {target : NodeId} {arity : Nat}
    (h : firstCall? nodes = some (target, arity)) :
    exists node, node ∈ nodes ∧ target ∈ node.children := by
  fun_induction firstCall? nodes with
  | case1 => cases h
  | case2 => cases h
  | case3 node nodes _ ih =>
      cases hshape : callShape? node with
      | none =>
          rw [hshape] at h
          rcases ih h with ⟨found, hmem, hchild⟩
          exact ⟨found, List.mem_cons_of_mem _ hmem, hchild⟩
      | some call =>
          rw [hshape] at h
          cases h
          exact ⟨node, List.mem_cons_self, mem_children_of_callShape? hshape⟩

theorem memberName_faultless (h : t.Sound) (hid : id.index < t.size) :
    Faultless (memberName t id) := by
  apply (h.node_yields hid).bind
  intro node hchildren
  split
  next target name =>
    exact (SyntaxTree.identifierName_faultless (hchildren name (by simp [Node.children]))).andThen
      fun _ => .pure _
  next => exact Faultless.pure _

theorem enclosingSignature_faultless (h : t.Sound) (hid : id.index < t.size) :
    Faultless (enclosingSignature t id) := by
  apply (h.ancestors_yields hid).bind
  intro path hpath
  apply (Yields.mapM fun above habove => h.node_yields (hpath above habove)).bind
  intro nodes hnodes
  split
  next => exact Faultless.pure _
  next target arity hcall =>
    rcases exists_of_firstCall? hcall with ⟨node, hmem, hchild⟩
    exact (memberName_faultless h (hnodes node hmem target hchild)).andThen fun _ => .pure _

/-!
## Types
-/

theorem operandType_faultless (h : t.Sound) (hid : id.index < t.size) :
    Faultless (operandType t id) := by
  apply (h.descendants_yields hid).bind
  intro ids hids
  exact (Yields.mapM fun below hbelow => h.node_yields (hids below hbelow)).faultless.andThen
    fun _ => .pure _

theorem operandDeclaration_faultless (r : Registry) (h : t.Sound) (hid : id.index < t.size) :
    Faultless (operandDeclaration r t id) :=
  (operandType_faultless h hid).map fun _ _ => trivial

theorem constructedName_faultless (h : t.Sound) (hid : id.index < t.size) :
    Faultless (constructedName t id) := by
  apply (h.node_yields hid).bind
  intro node hchildren
  split
  next target arguments =>
    exact SyntaxTree.identifierName_faultless (hchildren target (by simp [Node.children]))
  next => exact Faultless.pure _

theorem isCatchParameter_faultless (h : t.Sound) (hid : id.index < t.size) :
    Faultless (isCatchParameter t id) := by
  apply (h.parent_yields hid).bind
  intro parent hparent
  cases parent with
  | none => exact Faultless.pure _
  | some parent =>
      apply (h.node_yields (hparent parent rfl).2).bind
      intro node _
      split <;> exact Faultless.pure _

theorem typeOfForm_faultless (s : Setting) (node : Node) (h : t.Sound) (hid : id.index < t.size) :
    Faultless (typeOfForm s t id node) := by
  unfold typeOfForm
  split
  case h_2 => exact (constructedName_faultless h hid).andThen fun _ => .pure _
  case h_8 | h_9 => exact operandDeclaration_faultless s.registry h hid
  all_goals exact .pure _

theorem classify_faultless (s : Setting) (h : t.Sound) (id : NodeId) :
    Faultless (classify s t id) := by
  unfold classify
  split
  next => exact .pure _
  next entry hentry =>
    have hid := SyntaxTree.index_lt_of_get? hentry
    split
    next => exact .pure _
    next =>
      apply (isCatchParameter_faultless h hid).andThen
      intro caught
      split
      next => exact .pure _
      next => exact typeOfForm_faultless s _ h hid

theorem canResolveVariable_faultless (h : t.Sound) {target initializer : NodeId}
    (htarget : target.index < t.size) (hinitializer : initializer.index < t.size) :
    Faultless (canResolveVariable t target initializer) :=
  (h.toSource_faultless htarget).andThen fun _ =>
    (h.toSource_faultless hinitializer).andThen fun _ => .pure _

/-!
## Entered texts
-/

theorem relevantPart_in {node : Node} (hchildren : forall child, child ∈ node.children ->
    child.index < t.size) (hid : id.index < t.size) {part : NodeId}
    (h : relevantPart id node = some part) : part.index < t.size := by
  cases node with
  | expressionStatement | switchCases | ifElse | whileLoop =>
      cases h
      exact hchildren _ (by simp [Node.children])
  | forLoop initializer condition step body =>
      have h : initializer = some part := h
      exact hchildren part (by simp [Node.children, h])
  | forInLoop | skipped => cases h
  | _ =>
      cases h
      exact hid

theorem statements_yields (h : t.Sound)
    (hroot : forall root, t.root = some root -> root.index < t.size) :
    Yields t.statements fun ids => forall id, id ∈ ids -> id.index < t.size := by
  unfold SyntaxTree.statements
  cases hfound : t.root with
  | none => exact ⟨[], rfl, nofun⟩
  | some root =>
      apply (h.node_yields (hroot root hfound)).map
      intro node hchildren
      split
      next => exact hchildren
      next => exact nofun

theorem relevantSource_faultless (h : t.Sound)
    (hroot : forall root, t.root = some root -> root.index < t.size) :
    Faultless (relevantSource t) := by
  apply (statements_yields h hroot).bind
  intro ids hids
  cases ids with
  | nil => exact Faultless.pure _
  | cons statement ids =>
      have hstatement := hids statement List.mem_cons_self
      apply (h.node_yields hstatement).bind
      intro node hchildren
      cases hpart : relevantPart statement node with
      | none => exact Faultless.pure _
      | some part => exact h.toSource_faultless (relevantPart_in hchildren hstatement hpart)

theorem enteredExpression_faultless (text : String) : Faultless (enteredExpression text) := by
  unfold enteredExpression
  split
  next => exact .pure _
  next tree ds hparse =>
    rcases whole_of_parses (.inl ⟨ds, hparse⟩) with ⟨stream, root, f, _, hwhole⟩
    apply relevantSource_faultless hwhole.sound
    intro root' hroot
    rw [hwhole.top] at hroot
    cases hroot
    exact hwhole.root_lt

theorem enteredType_faultless (s : Setting) (text : String) : Faultless (enteredType s text) := by
  apply (enteredExpression_faultless text).andThen
  intro expression
  split
  next => exact .pure _
  next =>
    split
    next => exact .pure _
    next tree hparse =>
      rcases whole_of_parses (.inr hparse) with ⟨stream, root, f, _, hwhole⟩
      split
      next => exact .pure _
      next => exact classify_faultless s hwhole.sound _

end Inference
end ScriptHints
