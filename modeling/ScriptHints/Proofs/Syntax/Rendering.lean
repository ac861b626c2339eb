import ScriptHints.Proofs.Syntax.Renderer
import ScriptHints.Proofs.Tree.Leading

/-!
# Rendering nodes in place

A renderer that comes to a node appends the text of its fragments and goes on behind it, at the
depth it had. It comes to every node below the one it has begun with. No state has two next ones,
so what is appended for a node in its place is a part of what is appended for the whole.
-/

namespace ScriptHints
namespace Syntax

open Fragment Instruction

theorem Fragment.textOf_cons (fragment : Fragment) (fragments : List Fragment) :
    textOf (fragment :: fragments) = fragment.text ++ textOf fragments :=
  String.join_cons

theorem Fragment.textOf_append (front back : List Fragment) :
    textOf (front ++ back) = textOf front ++ textOf back := by
  rw [← String.toList_inj, String.toList_append, toList_textOf, toList_textOf, toList_textOf,
    List.flatMap_append]

namespace Renderer

variable {t : SyntaxTree} {r r' r'' : Renderer}

/-!
## Runs
-/

theorem rightUnique_step (t : SyntaxTree) :
    Relator.RightUnique fun r r' : Renderer => r.step? t = some r' := by
  intro r r' r'' h h'
  exact Option.some_inj.mp (h.symm.trans h')

theorem step_of_node {id : NodeId} {n : Node} (hnode : t.node id = .ok n) {todo : List Instruction}
    {output : String} {depth : Nat} :
    (⟨node id :: todo, output, depth⟩ : Renderer).step? t =
      some ⟨n.instructions ++ todo, output, depth⟩ := by
  show (t.node id).toOption.map _ = _
  rw [hnode]
  rfl

theorem Gets.toEnd (h : Gets t r r') (h' : Gets t r r'') (hend : r''.todo = []) :
    Gets t r' r'' := by
  rcases Relation.ReflTransGen.total_of_right_unique (rightUnique_step t) h h' with hahead | hback
  · exact hahead
  · rcases hback.cases_head with rfl | ⟨next, hstep, _⟩
    · exact .refl
    · rw [step?, hend] at hstep
      cases hstep

theorem output_of_step (h : r.step? t = some r') :
    exists added, r'.output = r.output ++ added := by
  unfold step? at h
  split at h
  next => cases h
  next =>
    cases h
    exact ⟨_, rfl⟩
  next =>
    cases h
    exact ⟨_, rfl⟩
  next =>
    cases h
    exact ⟨"", (String.append_empty).symm⟩
  next =>
    cases h
    exact ⟨"", (String.append_empty).symm⟩
  next =>
    rcases Option.map_eq_some_iff.mp h with ⟨n, _, rfl⟩
    exact ⟨"", (String.append_empty).symm⟩

theorem Gets.output (h : Gets t r r') : exists added, r'.output = r.output ++ added := by
  induction h with
  | refl => exact ⟨"", (String.append_empty).symm⟩
  | tail _ hstep ih =>
      rcases ih with ⟨front, hfront⟩
      rcases output_of_step hstep with ⟨back, hback⟩
      exact ⟨front ++ back, by rw [hback, hfront, String.append_assoc]⟩

/-- At a depth a renderer appends a text for instructions, and then it has that depth again. -/
def Appends (t : SyntaxTree) (depth : Nat) (todo : List Instruction) (text : String) : Prop :=
  forall more output,
    Gets t ⟨todo ++ more, output, depth⟩ ⟨more, output ++ text, depth⟩

variable {print : Nat → NodeId → Except TreeFault (List Fragment)}

/-- What is appended for instructions, given what is appended for their parts. -/
theorem appends_fragments {todo : List Instruction} (hbalanced : Balanced todo)
    (hparts : forall id, id ∈ parts todo -> forall depth fs, print depth id = .ok fs ->
      Appends t depth [node id] (textOf fs))
    {depth : Nat} {fs : List Fragment} (h : Instruction.fragments print depth todo = .ok fs) :
    Appends t depth todo (textOf fs) := by
  induction hbalanced generalizing depth fs with
  | nil =>
      cases h
      intro more output
      rw [show output ++ textOf [] = output from String.append_empty]
      exact .refl
  | @put fragment todo _ ih =>
      rcases exists_of_bind h with ⟨rest, hrest, h⟩
      cases h
      intro more output
      rw [textOf_cons, ← String.append_assoc]
      exact .head rfl (ih hparts hrest more _)
  | @newline todo _ ih =>
      rcases exists_of_bind h with ⟨rest, hrest, h⟩
      cases h
      intro more output
      rw [textOf_cons, ← String.append_assoc]
      exact .head rfl (ih hparts hrest more _)
  | @node id todo _ ih =>
      rcases exists_of_bind h with ⟨part, hpart, h⟩
      rcases exists_of_bind h with ⟨rest, hrest, h⟩
      cases h
      have hrest := ih (fun other hother => hparts other (List.mem_cons_of_mem id hother)) hrest
      intro more output
      rw [textOf_append, ← String.append_assoc]
      exact (hparts id List.mem_cons_self depth part hpart (todo ++ more) output).trans
        (hrest more _)
  | @within inner todo hinner _ ihinner ih =>
      rw [fragments_within hinner] at h
      rcases exists_of_bind h with ⟨inside, hinside, h⟩
      rcases exists_of_bind h with ⟨rest, hrest, h⟩
      cases h
      have hinside := ihinner (fun id hid => hparts id (by simp [hid])) hinside
      have hrest := ih (fun id hid => hparts id (by simp [hid])) hrest
      -- one step deeper, the inner instructions, and one step back to the depth from before
      intro more output
      rw [textOf_append, ← String.append_assoc, List.append_assoc, List.cons_append]
      exact .head rfl ((hinside _ output).trans (.head rfl (hrest more _)))

theorem appends_fragmentsWithin {b depth : Nat} {id : NodeId} {fs : List Fragment}
    (h : t.fragmentsWithin b depth id = .ok fs) : Appends t depth [node id] (textOf fs) := by
  induction b generalizing depth id fs with
  | zero => cases h
  | succ b ih =>
      unfold SyntaxTree.fragmentsWithin at h
      cases hnode : t.node id with
      | error fault =>
          rw [hnode] at h
          cases h
      | ok n =>
          have hprinted : n.fragments (t.fragmentsWithin b) depth = .ok fs := by
            rw [hnode] at h
            exact h
          rw [n.fragments_eq] at hprinted
          intro more output
          exact .head (step_of_node hnode)
            (appends_fragments n.balanced_instructions (fun _ _ _ _ => ih) hprinted more output)

theorem appends_of_fragments {id : NodeId} {depth : Nat} {text : String}
    (h : (t.fragments depth id).map textOf = .ok text) : Appends t depth [node id] text := by
  cases hfs : t.fragments depth id with
  | error fault =>
      rw [hfs] at h
      cases h
  | ok fs =>
      rw [hfs] at h
      cases h
      exact appends_fragmentsWithin hfs

/-!
## Nodes below a node
-/

/-- From instructions a renderer comes to each of their parts, if it comes past the ones before. -/
theorem gets_part {todo : List Instruction}
    (hparts : forall id, id ∈ parts todo ->
      forall depth, exists text, Appends t depth [node id] text)
    {child : NodeId} (hchild : child ∈ parts todo) (more : List Instruction) (output : String)
    (depth : Nat) : exists behind output' depth',
      Gets t ⟨todo ++ more, output, depth⟩ ⟨node child :: behind, output', depth'⟩ := by
  induction todo generalizing output depth with
  | nil => cases hchild
  | cons instruction todo ih =>
      cases instruction with
      | put fragment =>
          rcases ih hparts hchild (output ++ fragment.text) depth with ⟨_, _, _, hgets⟩
          exact ⟨_, _, _, .head rfl hgets⟩
      | newline =>
          rcases ih hparts hchild (output ++ (lineBreak depth).text) depth with ⟨_, _, _, hgets⟩
          exact ⟨_, _, _, .head rfl hgets⟩
      | deeper =>
          rcases ih hparts hchild output (depth + 1) with ⟨_, _, _, hgets⟩
          exact ⟨_, _, _, .head rfl hgets⟩
      | shallower =>
          rcases ih hparts hchild output (depth - 1) with ⟨_, _, _, hgets⟩
          exact ⟨_, _, _, .head rfl hgets⟩
      | node id =>
          rcases List.mem_cons.mp hchild with rfl | hbehind
          · exact ⟨todo ++ more, output, depth, .refl⟩
          · rcases hparts id List.mem_cons_self depth with ⟨text, htext⟩
            rcases ih (fun other hother => hparts other (List.mem_cons_of_mem id hother)) hbehind
              (output ++ text) depth with ⟨_, _, _, hgets⟩
            exact ⟨_, _, _, (htext (todo ++ more) output).trans hgets⟩

section

variable {id root : NodeId} (h : t.Sound)
include h

theorem exists_appends (hid : id.index < t.size) (depth : Nat) :
    exists text, Appends t depth [node id] text := by
  rcases h.fragmentsWithin_faultless hid t.budget depth (Nat.lt_succ_of_lt hid) with ⟨fs, hfs, _⟩
  exact ⟨textOf fs, appends_fragmentsWithin hfs⟩

/-- A renderer comes to all nodes below the one that it has begun with. -/
theorem gets_reached (hreaches : t.Reaches root id) (more : List Instruction) (output : String)
    (depth : Nat) : exists behind output' depth',
      Gets t ⟨node root :: more, output, depth⟩ ⟨node id :: behind, output', depth'⟩ := by
  induction hreaches with
  | refl => exact ⟨more, output, depth, .refl⟩
  | @tail parent child _ hchild ih =>
      rcases ih with ⟨behind, output', depth', hgets⟩
      rcases SyntaxTree.exists_get?_of_index_lt (SyntaxTree.index_lt_of_isChild hchild) with
        ⟨entry, hentry⟩
      rcases hchild with ⟨children, hchildren, hchild⟩
      rw [SyntaxTree.children_of_get? hentry] at hchildren
      cases hchildren
      rw [← entry.node.parts_instructions] at hchild
      have hparts (other : NodeId) (hother : other ∈ parts entry.node.instructions) (depth : Nat) :
          exists text, Appends t depth [node other] text := by
        rw [entry.node.parts_instructions] at hother
        have holder := h.children hentry other hother
        exact exists_appends h (holder.trans (SyntaxTree.index_lt_of_get? hentry)) depth
      rcases gets_part hparts hchild behind output' depth' with ⟨_, _, _, hpart⟩
      have hnode := SyntaxTree.node_of_get? hentry
      exact ⟨_, _, _, hgets.trans (.head (step_of_node hnode) hpart)⟩

end

end Renderer

end Syntax
end ScriptHints
