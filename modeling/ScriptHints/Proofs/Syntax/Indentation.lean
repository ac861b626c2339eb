import ScriptHints.Proofs.Syntax.Rendering

/-!
# Indentation

The depth of a renderer shows behind line feeds only, and as blanks only. Where nothing else that
is printed has a line feed in it, a node at a depth is the node on its own with so many
blanks behind each line feed, and they can be taken away again.
-/

namespace ScriptHints

namespace Text

/-!
## Texts further in
-/

def indentedChar (depth : Nat) (c : Char) : List Char :=
  if c = '\n' then c :: List.replicate (2 * depth) ' ' else [c]

def indented (depth : Nat) (text : String) : String :=
  String.ofList (text.toList.flatMap (indentedChar depth))

/-- A text without the blanks behind its line feeds; so many of them are still to be left out. -/
def unindentedFrom (depth : Nat) : Nat → List Char → List Char
  | _, [] => []
  | due, c :: text =>
      if c = '\n' then c :: unindentedFrom depth (2 * depth) text
      else if c = ' ' ∧ 0 < due then unindentedFrom depth (due - 1) text
      else c :: unindentedFrom depth 0 text

def unindented (depth : Nat) (text : String) : String :=
  String.ofList (unindentedFrom depth 0 text.toList)

variable {depth : Nat}

theorem toList_indented (text : String) :
    (indented depth text).toList = text.toList.flatMap (indentedChar depth) := by
  simp [indented]

theorem indented_append (front back : String) :
    indented depth (front ++ back) = indented depth front ++ indented depth back := by
  rw [← String.toList_inj]
  simp [toList_indented]

theorem flatMap_indentedChar {text : List Char} (h : '\n' ∉ text) :
    text.flatMap (indentedChar depth) = text := by
  induction text with
  | nil => rfl
  | cons c text ih =>
      rw [List.mem_cons, not_or] at h
      rw [List.flatMap_cons, ih h.2, indentedChar, if_neg (Ne.symm h.1)]
      rfl

theorem indented_of_notMem {text : String} (h : '\n' ∉ text.toList) :
    indented depth text = text := by
  rw [← String.toList_inj, toList_indented, flatMap_indentedChar h]

theorem unindentedFrom_replicate (due : Nat) (text : List Char) :
    unindentedFrom depth due (List.replicate due ' ' ++ text) = unindentedFrom depth 0 text := by
  induction due with
  | zero => rfl
  | succ due ih =>
      rw [List.replicate_succ, List.cons_append, unindentedFrom, if_neg (by decide),
        if_pos ⟨rfl, Nat.succ_pos due⟩]
      exact ih

theorem unindented_indented (depth : Nat) (text : String) :
    unindented depth (indented depth text) = text := by
  rw [← String.toList_inj, unindented, String.toList_ofList, toList_indented]
  induction text.toList with
  | nil => rfl
  | cons c text ih =>
      rw [List.flatMap_cons, indentedChar]
      split
      next hfeed =>
        rw [List.cons_append, unindentedFrom, if_pos hfeed, unindentedFrom_replicate, ih]
      next hother =>
        rw [List.singleton_append, unindentedFrom, if_neg hother, if_neg (by simp), ih]

end Text

namespace Syntax

open Token Text Fragment Instruction

/-!
## Single lines
-/

def Fragment.SingleLine (fragment : Fragment) : Prop :=
  '\n' ∉ fragment.text.toList

instance (fragment : Fragment) : Decidable fragment.SingleLine :=
  inferInstanceAs (Decidable ('\n' ∉ fragment.text.toList))

@[simp] theorem Fragment.singleLine_fixedText (kind : TokenKind) :
    (lexeme kind.fixedText).SingleLine := by
  cases kind with
  | keyword k => cases k <;> decide +kernel
  | punctuator p => cases p <;> decide +kernel
  | _ => exact List.not_mem_nil

@[simp] theorem Fragment.singleLine_blank : blank.SingleLine := by
  decide

@[simp] theorem Fragment.singleLine_mark (p : Punctuator) : (mark p).SingleLine :=
  singleLine_fixedText (.punctuator p)

@[simp] theorem Fragment.singleLine_word (k : Keyword) : (word k).SingleLine :=
  singleLine_fixedText (.keyword k)

namespace Instruction

def SingleLines (todo : List Instruction) : Prop :=
  forall fragment, put fragment ∈ todo -> fragment.SingleLine

@[simp] theorem singleLines_nil : SingleLines [] :=
  nofun

@[simp] theorem singleLines_put {fragment : Fragment} {more : List Instruction} :
    SingleLines (put fragment :: more) ↔ fragment.SingleLine ∧ SingleLines more := by
  simp [SingleLines, or_imp, forall_and]

@[simp] theorem singleLines_newline {more : List Instruction} :
    SingleLines (newline :: more) ↔ SingleLines more := by
  simp [SingleLines]

@[simp] theorem singleLines_deeper {more : List Instruction} :
    SingleLines (deeper :: more) ↔ SingleLines more := by
  simp [SingleLines]

@[simp] theorem singleLines_shallower {more : List Instruction} :
    SingleLines (shallower :: more) ↔ SingleLines more := by
  simp [SingleLines]

@[simp] theorem singleLines_node {id : NodeId} {more : List Instruction} :
    SingleLines (node id :: more) ↔ SingleLines more := by
  simp [SingleLines]

@[simp] theorem singleLines_append {front back : List Instruction} :
    SingleLines (front ++ back) ↔ SingleLines front ∧ SingleLines back := by
  simp [SingleLines, or_imp, forall_and]

@[simp] theorem singleLines_puts {fragments : List Fragment} :
    SingleLines (puts fragments) ↔ forall fragment, fragment ∈ fragments ->
    fragment.SingleLine := by
  simp [SingleLines, puts]

theorem singleLines_optional {lead : List Fragment} (h : SingleLines (puts lead))
    (part : Option NodeId) : SingleLines (optional lead part) := by
  cases part with
  | none => exact singleLines_nil
  | some id => exact singleLines_append.mpr ⟨h, by simp⟩

theorem singleLines_separated {separator : List Instruction} (hseparator : SingleLines separator) :
    forall {pieces : List (List Instruction)},
      (forall piece, piece ∈ pieces -> SingleLines piece) ->
      SingleLines (separated separator pieces)
  | [], _ => singleLines_nil
  | [_], h => by
      rw [separated_singleton]
      exact h _ List.mem_cons_self
  | _ :: _ :: _, h => by
      rw [separated_cons_cons]
      have hfirst := h _ List.mem_cons_self
      have hmore := singleLines_separated hseparator fun piece hpiece =>
        h piece (List.mem_cons_of_mem _ hpiece)
      simp only [singleLines_append]
      exact ⟨⟨hfirst, hseparator⟩, hmore⟩

@[simp] theorem singleLines_list (ids : List NodeId) : SingleLines (list ids) := by
  apply singleLines_separated <;> simp

@[simp] theorem singleLines_elements (ids : List (Option NodeId)) : SingleLines (elements ids) := by
  refine singleLines_append.mpr ⟨singleLines_separated (by simp) ?_, ?_⟩
  · intro piece hpiece
    rcases List.mem_map.mp hpiece with ⟨part, _, rfl⟩
    exact singleLines_optional (by simp) part
  · split <;> simp

@[simp] theorem singleLines_lines (ids : List NodeId) : SingleLines (lines ids) := by
  simp [SingleLines, lines]

@[simp] theorem singleLines_inside (ids : List NodeId) : SingleLines (inside ids) := by
  simp [inside]

@[simp] theorem singleLines_blockBody (ids : List NodeId) : SingleLines (blockBody ids) := by
  cases ids <;> simp [blockBody]

@[simp] theorem singleLines_header {k : Keyword} {condition : List Instruction} :
    SingleLines (header k condition) ↔ SingleLines condition := by
  simp [header]

@[simp] theorem singleLines_jump (k : Keyword) (part : Option NodeId) :
    SingleLines (jump k part) := by
  simp [jump, singleLines_optional]

end Instruction

theorem Node.singleLines_instructions (n : Node) (h : n.isLeaf = false) :
    SingleLines n.instructions := by
  cases n
  case identifier | number | string | boolean | nullValue | thisValue | regExp | skipped => cases h
  case script statements => exact singleLines_separated (by simp) (by simp)
  case construction target arguments => cases arguments <;> simp [instructions]
  case unary operator operand =>
    by_cases hword : operator.isWord = true <;> simp [instructions, UnaryOperator.symbol, hword]
  case binary | assignment =>
    simp [instructions, BinaryOperator.symbol, AssignmentOperator.symbol]
  case update operator side operand =>
    cases side <;> simp [instructions, UpdateOperator.symbol]
  case switchCase test body => cases test <;> simp [instructions]
  case «variables» declared statement => cases statement <;> simp [instructions]
  all_goals simp [instructions, singleLines_optional]

/-!
## Levels
-/

theorem Fragment.indented_lineBreak (depth level : Nat) :
    indented depth (lineBreak level).text = (lineBreak (level + depth)).text := by
  have hblanks : '\n' ∉ List.replicate (2 * level) ' ' := by
    simp
  rw [← String.toList_inj, toList_indented]
  simp only [text, String.toList_ofList, List.flatMap_cons, flatMap_indentedChar hblanks]
  rw [indentedChar, if_pos rfl, List.cons_append, List.replicate_append_replicate, Nat.mul_add,
    Nat.add_comm (2 * depth)]

/-- Where the first is printed, the second is the same text further in. -/
def Indents (depth : Nat) (x y : Except TreeFault (List Fragment)) : Prop :=
  forall fs, x = .ok fs -> exists fs', y = .ok fs' ∧ textOf fs' = indented depth (textOf fs)

namespace Indents

variable {depth : Nat} {x x' y y' : Except TreeFault (List Fragment)}

theorem cons {fragment fragment' : Fragment}
    (hfragment : fragment'.text = indented depth fragment.text)
    (h : Indents depth x y) :
    Indents depth (do return fragment :: (← x)) (do return fragment' :: (← y)) := by
  intro fs hfs
  rcases exists_of_bind hfs with ⟨rest, rfl, hfs⟩
  rcases h rest rfl with ⟨rest', rfl, hrest⟩
  cases hfs
  exact ⟨_, rfl, by rw [textOf_cons, textOf_cons, indented_append, hfragment, hrest]⟩

theorem append (h : Indents depth x y) (h' : Indents depth x' y') :
    Indents depth (do return (← x) ++ (← x')) (do return (← y) ++ (← y')) := by
  intro fs hfs
  rcases exists_of_bind hfs with ⟨front, hx, hfs⟩
  rcases exists_of_bind hfs with ⟨back, hx', hfs⟩
  rcases h front hx with ⟨front', rfl, hfront⟩
  rcases h' back hx' with ⟨back', rfl, hback⟩
  cases hfs
  exact ⟨_, rfl, by rw [textOf_append, textOf_append, indented_append, hfront, hback]⟩

end Indents

/-- Instructions at another level, given their parts at another level. -/
theorem Instruction.indents_fragments {print : Nat → NodeId → Except TreeFault (List Fragment)}
    {depth : Nat} {todo : List Instruction} (hbalanced : Balanced todo)
    (hlines : SingleLines todo)
    (hparts : forall id, id ∈ parts todo -> forall level,
      Indents depth (print level id) (print (level + depth) id)) (level : Nat) :
    Indents depth (Instruction.fragments print level todo)
      (Instruction.fragments print (level + depth) todo) := by
  induction hbalanced generalizing level with
  | nil =>
      intro fs hfs
      cases hfs
      exact ⟨[], rfl, rfl⟩
  | put fragment _ ih =>
      rw [singleLines_put] at hlines
      exact .cons (indented_of_notMem hlines.1).symm (ih hlines.2 hparts level)
  | newline _ ih =>
      rw [singleLines_newline] at hlines
      exact .cons (indented_lineBreak depth level).symm (ih hlines hparts level)
  | node id _ ih =>
      rw [singleLines_node] at hlines
      have hmore := ih hlines fun other hother => hparts other (List.mem_cons_of_mem id hother)
      exact .append (hparts id List.mem_cons_self level) (hmore level)
  | within hinner _ ihinner ih =>
      simp only [List.cons_append, singleLines_deeper, singleLines_append, singleLines_shallower]
        at hlines
      have hinside := ihinner hlines.1 fun id hid => hparts id (by simp [hid])
      have hmore := ih hlines.2 fun id hid => hparts id (by simp [hid])
      rw [fragments_within hinner, fragments_within hinner, Nat.add_right_comm level depth 1]
      exact .append (hinside (level + 1)) (hmore level)

/-- Nodes at another level, where no node that is met has a line feed of its own. -/
theorem SyntaxTree.indents_fragmentsWithin {t : SyntaxTree}
    (h : forall id n, t.node id = .ok n -> SingleLines n.instructions) (b depth level : Nat)
    (id : NodeId) :
    Indents depth (t.fragmentsWithin b level id) (t.fragmentsWithin b (level + depth) id) := by
  induction b generalizing level id with
  | zero =>
      intro fs hfs
      cases hfs
  | succ b ih =>
      unfold fragmentsWithin
      cases hnode : t.node id with
      | error fault =>
          intro fs hfs
          cases hfs
      | ok n =>
          show Indents depth (n.fragments _ level) (n.fragments _ (level + depth))
          rw [n.fragments_eq, n.fragments_eq]
          exact indents_fragments n.balanced_instructions (h id n hnode)
            (fun id _ level => ih level id)
            level

end Syntax
end ScriptHints
