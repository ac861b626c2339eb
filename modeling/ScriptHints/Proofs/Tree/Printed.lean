import ScriptHints.Proofs.Tree.Walks
import ScriptHints.Syntax.Source

/-!
# Printing nodes of sound trees

A node is printed as long as its children are. So every node of a sound tree is printed,
whatever the level.
-/

namespace ScriptHints
namespace Syntax

namespace Faultless

theorem pure (a : α) : Faultless (pure a) :=
  ⟨a, rfl, trivial⟩

theorem andThen {x : Except TreeFault α} {f : α → Except TreeFault β} (hx : Faultless x)
    (hf : forall a, Faultless (f a)) : Faultless (x >>= f) :=
  hx.bind fun a _ => hf a

variable {print : NodeId → Except TreeFault (List Fragment)}

theorem parts {ids : List NodeId} (h : forall id, id ∈ ids -> Faultless (print id)) :
    Faultless (ids.mapM print) :=
  (Yields.mapM h).faultless

theorem optionalPart {part : Option NodeId}
    (h : forall id, id ∈ part.toList -> Faultless (print id)) : Faultless (part.mapM print) := by
  cases part with
  | none => exact .pure none
  | some id => exact (h id (List.mem_singleton.mpr rfl)).map fun _ _ => trivial

theorem optionalParts {part : Option (List NodeId)}
    (h : forall id, id ∈ part.getD [] -> Faultless (print id)) :
    Faultless (part.mapM fun ids => ids.mapM print) := by
  cases part with
  | none => exact .pure none
  | some ids => exact (parts h).map fun _ _ => trivial

theorem elements {elements : List (Option NodeId)}
    (h : forall id, some id ∈ elements -> Faultless (print id)) :
    Faultless (elements.mapM fun element => element.mapM print) := by
  have hall : forall element, element ∈ elements -> Faultless (element.mapM print) := by
    intro element helement
    apply optionalPart
    intro id hid
    apply h
    rw [← Option.mem_toList.mp hid]
    exact helement
  exact (Yields.mapM hall).faultless

end Faultless

theorem Node.fragments_faultless {print : Nat → NodeId → Except TreeFault (List Fragment)}
    (level : Nat) (node : Node)
    (h : forall level child, child ∈ node.children -> Faultless (print level child)) :
    Faultless (node.fragments print level) := by
  unfold Node.fragments
  cases node
  case identifier | number | string | boolean | nullValue | thisValue | regExp | empty | skipped =>
    exact .pure _
  case unary operand | parenthesized operand | expressionStatement operand | throwValue operand =>
    refine .andThen (h _ operand (by simp [children])) fun _ => ?_
    exact .pure _
  case update side operand =>
    refine .andThen (h _ operand (by simp [children])) fun _ => ?_
    cases side <;> exact .pure _
  case property first second | binary first second | assignment first second
      | propertyAccess first second | elementAccess first second | whileLoop first second
      | doWhileLoop first second | catchClause first second | labeled first second
      | withObject first second =>
    refine .andThen (h _ first (by simp [children])) fun _ => ?_
    refine .andThen (h _ second (by simp [children])) fun _ => ?_
    exact .pure _
  case conditional first second third | forInLoop first second third =>
    refine .andThen (h _ first (by simp [children])) fun _ => ?_
    refine .andThen (h _ second (by simp [children])) fun _ => ?_
    refine .andThen (h _ third (by simp [children])) fun _ => ?_
    exact .pure _
  case script | object | sequence | «variables» | block =>
    refine .andThen (.parts fun id hid => h _ id (by simp [children, hid])) fun _ => ?_
    exact .pure _
  case array =>
    refine .andThen (.elements fun id hid => h _ id (by simp [children, hid])) fun _ => ?_
    exact .pure _
  case call first rest | switchCases first rest =>
    refine .andThen (h _ first (by simp [children])) fun _ => ?_
    refine .andThen (.parts fun id hid => h _ id (by simp [children, hid])) fun _ => ?_
    exact .pure _
  case construction target arguments =>
    refine .andThen (h _ target (by simp [children])) fun _ => ?_
    refine .andThen (.optionalParts fun id hid => h _ id (by simp [children, hid])) fun _ => ?_
    exact .pure _
  case function name params body declaration =>
    refine .andThen (.optionalPart fun id hid => h _ id (by simp [children, hid])) fun _ => ?_
    refine .andThen (.parts fun id hid => h _ id (by simp [children, hid])) fun _ => ?_
    refine .andThen (h _ body (by simp [children])) fun _ => ?_
    exact .pure _
  case «variable» target initializer =>
    refine .andThen (h _ target (by simp [children])) fun _ => ?_
    refine .andThen (.optionalPart fun id hid => h _ id (by simp [children, hid])) fun _ => ?_
    exact .pure _
  case ifElse condition thenBranch elseBranch =>
    refine .andThen (h _ condition (by simp [children])) fun _ => ?_
    refine .andThen (h _ thenBranch (by simp [children])) fun _ => ?_
    refine .andThen (.optionalPart fun id hid => h _ id (by simp [children, hid])) fun _ => ?_
    exact .pure _
  case forLoop initializer condition step body =>
    refine .andThen (.optionalPart fun id hid => h _ id (by simp [children, hid])) fun _ => ?_
    refine .andThen (.optionalPart fun id hid => h _ id (by simp [children, hid])) fun _ => ?_
    refine .andThen (.optionalPart fun id hid => h _ id (by simp [children, hid])) fun _ => ?_
    refine .andThen (h _ body (by simp [children])) fun _ => ?_
    exact .pure _
  case switchCase test body =>
    have hbody : forall id, id ∈ body -> Faultless (print (level + 1) id) :=
      fun id hid => h _ id (by simp [children, hid])
    cases test with
    | none =>
        refine .andThen (.pure _) fun _ => .andThen (.parts hbody) fun _ => ?_
        exact .pure _
    | some test =>
        refine .andThen (h _ test (by simp [children])) fun _ => ?_
        refine .andThen (.pure _) fun _ => ?_
        refine .andThen (.parts hbody) fun _ => ?_
        exact .pure _
  case breakOff | continueOn | returnValue =>
    refine .andThen (.optionalPart fun id hid => h _ id (by simp [children, hid])) fun _ => ?_
    exact .pure _
  case tryCatch body handler finalizer =>
    refine .andThen (h _ body (by simp [children])) fun _ => ?_
    refine .andThen (.optionalPart fun id hid => h _ id (by simp [children, hid])) fun _ => ?_
    refine .andThen (.optionalPart fun id hid => h _ id (by simp [children, hid])) fun _ => ?_
    exact .pure _

namespace SyntaxTree

variable {t : SyntaxTree} {id : NodeId}

theorem Sound.fragmentsWithin_faultless (h : t.Sound) (hid : id.index < t.size) (b level : Nat)
    (hbudget : id.index < b) : Faultless (t.fragmentsWithin b level id) := by
  induction b generalizing level id with
  | zero => exact absurd hbudget (Nat.not_lt_zero _)
  | succ b ih =>
      rcases exists_get?_of_index_lt hid with ⟨entry, hentry⟩
      unfold fragmentsWithin
      rw [node_of_get? hentry]
      apply entry.node.fragments_faultless
      intro level' child hchild
      have holder := h.children hentry child hchild
      exact ih (Nat.lt_trans holder hid) level' (by omega)

theorem Sound.toSource_faultless (h : t.Sound) (hid : id.index < t.size) :
    Faultless (t.toSource id) :=
  (h.fragmentsWithin_faultless hid t.budget 0 (Nat.lt_succ_of_lt hid)).map fun _ _ => trivial

end SyntaxTree

end Syntax
end ScriptHints
