import ScriptHints.Proofs.Tree.Copied
import ScriptHints.Proofs.Tree.Printed

/-!
# Rendering with a depth

A node is printed at a level that is handed down to its parts. A renderer keeps the level as a
state instead: it appends to one output, goes deeper and comes back, and comes to the parts of a
node one behind the other. What it appends for a node is the text of the fragments at its depth.
-/

namespace ScriptHints
namespace Syntax

open Token Fragment

/-!
## Instructions
-/

inductive Instruction where
  | put (fragment : Fragment)
  | newline
  | deeper
  | shallower
  | node (id : NodeId)
deriving DecidableEq, Repr

namespace Instruction

def puts (fragments : List Fragment) : List Instruction :=
  fragments.map put

def separated (separator : List Instruction) (pieces : List (List Instruction)) :
    List Instruction :=
  (pieces.intersperse separator).flatten

theorem separated_singleton (separator piece : List Instruction) :
    separated separator [piece] = piece :=
  List.append_nil piece

theorem separated_cons_cons (separator piece next : List Instruction)
    (pieces : List (List Instruction)) :
    separated separator (piece :: next :: pieces) =
      piece ++ separator ++ separated separator (next :: pieces) := by
  simp [separated]

def optional (lead : List Fragment) : Option NodeId → List Instruction
  | some id => puts lead ++ [node id]
  | none => []

/-- Parts with a comma and a blank between them; a missing one is passed over, and a missing last
one has a comma of its own. -/
def elements (ids : List (Option NodeId)) : List Instruction :=
  separated (puts [mark .comma, blank]) (ids.map (optional [])) ++
    if ids.getLast? = some none then [put (mark .comma)] else []

def list (ids : List NodeId) : List Instruction :=
  separated (puts [mark .comma, blank]) (ids.map fun id => [node id])

def lines (ids : List NodeId) : List Instruction :=
  (ids.map fun id => [newline, node id]).flatten

/-- Parts on lines of their own that stand further in than what is around them. -/
def inside (ids : List NodeId) : List Instruction :=
  deeper :: lines ids ++ [shallower]

def blockBody (ids : List NodeId) : List Instruction :=
  match ids with
  | [] => puts [mark .openBrace, mark .closeBrace]
  | _ => put (mark .openBrace) :: inside ids ++ [newline, put (mark .closeBrace)]

/-- A word and what follows in parentheses, with the blank before what comes behind them. -/
def header (k : Keyword) (condition : List Instruction) : List Instruction :=
  puts [word k, blank, mark .openParen] ++ condition ++ puts [mark .closeParen, blank]

def jump (k : Keyword) (part : Option NodeId) : List Instruction :=
  put (word k) :: optional [blank] part ++ [put (mark .semicolon)]

end Instruction

open Instruction

def Node.instructions : Node → List Instruction
  | .script statements => separated [newline] (statements.map fun id => [node id])
  | .identifier name => [put (lexeme name)]
  | .number _ raw => [put (lexeme raw)]
  | .string value quote =>
      [put (lexeme
        (String.singleton quote ++ Text.escapeContents quote value ++ String.singleton quote))]
  | .boolean value => [put (lexeme (if value then "true" else "false"))]
  | .nullValue => [put (word .nullWord)]
  | .thisValue => [put (word .thisWord)]
  | .regExp pattern flags => [put (lexeme ("/" ++ pattern ++ "/" ++ flags))]
  | .object properties =>
      put (mark .openBrace) :: Instruction.list properties ++ [put (mark .closeBrace)]
  | .property key value => node key :: puts [mark .colon, blank] ++ [node value]
  | .array parts =>
      put (mark .openBracket) :: elements parts ++ [put (mark .closeBracket)]
  | .binary operator left right =>
      node left :: puts [blank, lexeme operator.symbol, blank] ++ [node right]
  | .assignment operator target value =>
      node target :: puts [blank, lexeme operator.symbol, blank] ++ [node value]
  | .propertyAccess target name => [node target, put (mark .dot), node name]
  | .elementAccess target element =>
      [node target, put (mark .openBracket), node element, put (mark .closeBracket)]
  | .call target arguments =>
      [node target, put (mark .openParen)] ++ Instruction.list arguments ++
        [put (mark .closeParen)]
  | .construction target arguments =>
      puts [word .newWord, blank] ++ [node target] ++
        match arguments with
        | some arguments =>
            put (mark .openParen) :: Instruction.list arguments ++ [put (mark .closeParen)]
        | none => []
  | .unary operator operand =>
      let gap := if operator.isWord then [blank] else []
      puts (lexeme operator.symbol :: gap) ++ [node operand]
  | .update operator .before operand => [put (lexeme operator.symbol), node operand]
  | .update operator .behind operand => [node operand, put (lexeme operator.symbol)]
  | .conditional test consequent alternative =>
      node test :: puts [blank, mark .question, blank] ++ node consequent ::
        puts [blank, mark .colon, blank] ++ [node alternative]
  | .parenthesized expression =>
      [put (mark .openParen), node expression, put (mark .closeParen)]
  | .sequence expressions => Instruction.list expressions
  | .function name params body _ =>
      put (word .functionWord) :: Instruction.optional [blank] name ++
        put (mark .openParen) :: Instruction.list params ++
        puts [mark .closeParen, blank] ++ [node body]
  | .expressionStatement expression => [node expression, put (mark .semicolon)]
  | .variables declared statement =>
      let closing := if statement then [put (mark .semicolon)] else []
      puts [word .varWord, blank] ++ Instruction.list declared ++ closing
  | .variable target initializer =>
      node target :: Instruction.optional [blank, mark .equal, blank] initializer
  | .block statements => blockBody statements
  | .empty => [put (mark .semicolon)]
  | .ifElse condition thenBranch elseBranch =>
      Instruction.header .ifWord [node condition] ++ node thenBranch ::
        Instruction.optional [blank, word .elseWord, blank] elseBranch
  | .whileLoop condition body => Instruction.header .whileWord [node condition] ++ [node body]
  | .doWhileLoop body condition =>
      puts [word .doWord, blank] ++ node body ::
        puts [blank, word .whileWord, blank, mark .openParen] ++ node condition ::
        puts [mark .closeParen, mark .semicolon]
  | .forLoop initializer condition step body =>
      let gap := puts [mark .semicolon, blank]
      Instruction.header .forWord
        (Instruction.optional [] initializer ++ gap ++ Instruction.optional [] condition ++ gap ++
          Instruction.optional [] step) ++ [node body]
  | .forInLoop iterator subject body =>
      Instruction.header .forWord
        (node iterator :: puts [blank, word .inWord, blank] ++ [node subject]) ++ [node body]
  | .switchCases discriminant cases =>
      Instruction.header .switchWord [node discriminant] ++ blockBody cases
  | .switchCase test body =>
      let label :=
        match test with
        | some test => puts [word .caseWord, blank] ++ [node test]
        | none => [put (word .defaultWord)]
      label ++ put (mark .colon) :: inside body
  | .breakOff label => jump .breakWord label
  | .continueOn label => jump .continueWord label
  | .returnValue value => jump .returnWord value
  | .throwValue value => jump .throwWord (some value)
  | .tryCatch body handler finalizer =>
      puts [word .tryWord, blank] ++ node body :: Instruction.optional [blank] handler ++
        Instruction.optional [blank, word .finallyWord, blank] finalizer
  | .catchClause parameter body => Instruction.header .catchWord [node parameter] ++ [node body]
  | .labeled label body => node label :: puts [mark .colon, blank] ++ [node body]
  | .withObject subject body => Instruction.header .withWord [node subject] ++ [node body]
  | .skipped text => [put (verbatim text)]

/-!
## Renderers
-/

structure Renderer where
  todo : List Instruction
  output : String
  depth : Nat

namespace Renderer

/-- One step; there is none at the end, and none to a node that the tree does not have. -/
def step? (t : SyntaxTree) (r : Renderer) : Option Renderer :=
  match r.todo with
  | [] => none
  | .put fragment :: todo => some { r with todo := todo, output := r.output ++ fragment.text }
  | .newline :: todo =>
      some { r with todo := todo, output := r.output ++ (lineBreak r.depth).text }
  | .deeper :: todo => some { r with todo := todo, depth := r.depth + 1 }
  | .shallower :: todo => some { r with todo := todo, depth := r.depth - 1 }
  | .node id :: todo =>
      (t.node id).toOption.map fun n => { r with todo := n.instructions ++ todo }

def Gets (t : SyntaxTree) : Renderer → Renderer → Prop :=
  Relation.ReflTransGen fun r r' => r.step? t = some r'

end Renderer

/-!
## Balanced instructions
-/

namespace Instruction

/-- Every step into the depth is followed by a step back, and no step back goes further. -/
inductive Balanced : List Instruction → Prop where
  | nil : Balanced []
  | put (fragment : Fragment) {more : List Instruction} :
      Balanced more -> Balanced (put fragment :: more)
  | newline {more : List Instruction} : Balanced more -> Balanced (newline :: more)
  | node (id : NodeId) {more : List Instruction} : Balanced more -> Balanced (node id :: more)
  | within {inner more : List Instruction} :
      Balanced inner -> Balanced more -> Balanced (deeper :: inner ++ shallower :: more)

@[simp] theorem Balanced.append {front back : List Instruction} (h : Balanced front)
    (h' : Balanced back) :
    Balanced (front ++ back) := by
  induction h with
  | nil => exact h'
  | put fragment _ ih => exact .put fragment ih
  | newline _ ih => exact .newline ih
  | node id _ ih => exact .node id ih
  | @within inner more hinner _ _ ih =>
      rw [List.append_assoc]
      exact .within hinner ih

theorem Balanced.flatten {pieces : List (List Instruction)}
    (h : forall piece, piece ∈ pieces -> Balanced piece) : Balanced pieces.flatten := by
  induction pieces with
  | nil => exact .nil
  | cons piece pieces ih =>
      exact (h piece List.mem_cons_self).append
        (ih fun other hother => h other (List.mem_cons_of_mem piece hother))

@[simp] theorem balanced_nil : Balanced [] :=
  .nil

@[simp] theorem balanced_put {fragment : Fragment} {more : List Instruction} :
    Balanced (put fragment :: more) ↔ Balanced more :=
  ⟨fun h => by cases h; assumption, .put fragment⟩

@[simp] theorem balanced_newline {more : List Instruction} :
    Balanced (newline :: more) ↔ Balanced more :=
  ⟨fun h => by cases h; assumption, .newline⟩

@[simp] theorem balanced_node {id : NodeId} {more : List Instruction} :
    Balanced (node id :: more) ↔ Balanced more :=
  ⟨fun h => by cases h; assumption, .node id⟩

@[simp] theorem balanced_puts (fragments : List Fragment) : Balanced (puts fragments) := by
  induction fragments with
  | nil => exact .nil
  | cons fragment fragments ih => exact .put fragment ih

@[simp] theorem balanced_puts_append (fragments : List Fragment) {more : List Instruction} :
    Balanced (puts fragments ++ more) ↔ Balanced more := by
  induction fragments with
  | nil => rfl
  | cons fragment fragments ih => exact balanced_put.trans ih

@[simp] theorem balanced_optional (lead : List Fragment) (part : Option NodeId) :
    Balanced (optional lead part) := by
  cases part <;> simp [optional]

@[simp] theorem balanced_optional_append (lead : List Fragment) (part : Option NodeId)
    {more : List Instruction} : Balanced (optional lead part ++ more) ↔ Balanced more := by
  cases part <;> simp [optional]

theorem balanced_separated {separator : List Instruction} (hseparator : Balanced separator) :
    forall {pieces : List (List Instruction)}, (forall piece, piece ∈ pieces -> Balanced piece) ->
      Balanced (separated separator pieces)
  | [], _ => .nil
  | [_], h => by
      rw [separated_singleton]
      exact h _ List.mem_cons_self
  | _ :: _ :: _, h => by
      rw [separated_cons_cons]
      have hfirst := h _ List.mem_cons_self
      have hmore := balanced_separated hseparator fun piece hpiece =>
        h piece (List.mem_cons_of_mem _ hpiece)
      exact (hfirst.append hseparator).append hmore

@[simp] theorem balanced_elements (ids : List (Option NodeId)) : Balanced (elements ids) := by
  apply (balanced_separated (balanced_puts _) _).append
  · split <;> simp
  · simp

@[simp] theorem balanced_list (ids : List NodeId) : Balanced (list ids) := by
  apply balanced_separated (balanced_puts _)
  simp

theorem balanced_lines (ids : List NodeId) : Balanced (lines ids) := by
  apply Balanced.flatten
  simp

@[simp] theorem balanced_inside (ids : List NodeId) : Balanced (inside ids) :=
  .within (balanced_lines ids) .nil

@[simp] theorem balanced_blockBody (ids : List NodeId) : Balanced (blockBody ids) := by
  cases ids with
  | nil => exact balanced_puts _
  | cons id ids => exact .put _ (.append (balanced_inside _) (by simp))

@[simp] theorem balanced_header (k : Keyword) {condition : List Instruction}
    (h : Balanced condition) : Balanced (header k condition) := by
  simp [header, h]

@[simp] theorem balanced_jump (k : Keyword) (part : Option NodeId) : Balanced (jump k part) := by
  simp [jump]

end Instruction

theorem Node.balanced_instructions (n : Node) : Balanced n.instructions := by
  cases n
  case script statements => exact balanced_separated (by simp) (by simp)
  case construction target arguments => cases arguments <;> simp [instructions]
  case update operator side operand => cases side <;> simp [instructions]
  case switchCase test body => cases test <;> simp [instructions]
  case «variables» declared statement => cases statement <;> simp [instructions]
  all_goals simp [instructions]

/-!
## What instructions print
-/

theorem Fragment.optional_nil (piece : Option (List Fragment)) :
    Fragment.optional [] piece = piece.getD [] := by
  cases piece <;> rfl

/-- The elements of an array that are missing are missing in what is printed. -/
theorem isSome_of_mapM {print : NodeId → Except TreeFault (List Fragment)}
    {ids : List (Option NodeId)} {parts : List (Option (List Fragment))}
    (h : ids.mapM (fun id => id.mapM print) = .ok parts) :
    parts.map Option.isSome = ids.map Option.isSome := by
  induction mapM_ok_iff.mp h with
  | nil => rfl
  | @cons id part ids parts hpart hparts ih =>
      have hsame : part.isSome = id.isSome := by
        cases id with
        | none =>
            cases hpart
            rfl
        | some id =>
            rcases exists_of_bind hpart with ⟨fragments, _, hpart⟩
            cases hpart
            rfl
      rw [List.map_cons, List.map_cons, hsame, ih (mapM_ok_iff.mpr hparts)]

theorem elementFragments_of_mapM {print : NodeId → Except TreeFault (List Fragment)}
    {ids : List (Option NodeId)} {parts : List (Option (List Fragment))}
    (h : ids.mapM (fun id => id.mapM print) = .ok parts) :
    elementFragments parts = Fragment.list (parts.map (·.getD [])) ++
      if ids.getLast? = some none then [mark .comma] else [] := by
  have hlast := congrArg List.getLast? (isSome_of_mapM h)
  rw [List.getLast?_map, List.getLast?_map] at hlast
  unfold elementFragments
  rcases hids : ids.getLast? with _ | _ | id <;> rcases hparts : parts.getLast? with
    _ | _ | part <;>
    simp_all

namespace Instruction

/-- The fragments of instructions that are met at a level, given those of their parts. -/
def fragments (print : Nat → NodeId → Except TreeFault (List Fragment)) :
    Nat → List Instruction → Except TreeFault (List Fragment)
  | _, [] => return []
  | level, .put fragment :: more => do return fragment :: (← fragments print level more)
  | level, .newline :: more => do return lineBreak level :: (← fragments print level more)
  | level, .deeper :: more => fragments print (level + 1) more
  | level, .shallower :: more => fragments print (level - 1) more
  | level, .node id :: more => do return (← print level id) ++ (← fragments print level more)

variable {print : Nat → NodeId → Except TreeFault (List Fragment)} {level : Nat}

theorem fragments_append {front : List Instruction} (h : Balanced front)
    (back : List Instruction) : fragments print level (front ++ back) = (do
      return (← fragments print level front) ++ (← fragments print level back)) := by
  induction h generalizing level back with
  | nil => simp only [List.nil_append, fragments, pure_bind, bind_pure]
  | put fragment _ ih => simp only [List.cons_append, fragments, ih, bind_assoc, pure_bind]
  | newline _ ih => simp only [List.cons_append, fragments, ih, bind_assoc, pure_bind]
  | node id _ ih =>
      simp only [List.cons_append, fragments, ih, bind_assoc, pure_bind, List.append_assoc]
  | within _ _ ihinner ihmore =>
      simp only [List.cons_append, List.append_assoc, fragments, ihinner, ihmore,
        Nat.add_sub_cancel, bind_assoc, pure_bind]

theorem fragments_within {inner : List Instruction} (h : Balanced inner)
    (more : List Instruction) :
    fragments print level (deeper :: inner ++ shallower :: more) = (do
      return (← fragments print (level + 1) inner) ++ (← fragments print level more)) :=
  fragments_append h (shallower :: more)

theorem fragments_node_nil (id : NodeId) : fragments print level [node id] = print level id := by
  simp only [fragments, pure_bind, List.append_nil, bind_pure]

theorem fragments_puts (pieces : List Fragment) :
    fragments print level (puts pieces) = pure pieces := by
  induction pieces with
  | nil => rfl
  | cons piece pieces ih =>
      show (do return piece :: (← fragments print level (puts pieces))) = _
      rw [ih, pure_bind]

theorem fragments_optional (lead : List Fragment) (part : Option NodeId) :
    fragments print level (optional lead part) = (do
      return Fragment.optional lead (← part.mapM (print level))) := by
  cases part with
  | none => rfl
  | some id =>
      simp only [optional, fragments_append (balanced_puts lead), fragments_puts,
        fragments_node_nil, pure_bind, Option.mapM_some]
      cases print level id <;> rfl

theorem fragments_separated {separator : List Instruction} {between : List Fragment}
    (hseparator : Balanced separator) (hbetween : fragments print level separator = pure between)
    (pieces : List (List Instruction)) (h : forall piece, piece ∈ pieces -> Balanced piece) :
    fragments print level (separated separator pieces) = (do
      return Fragment.separated between (← pieces.mapM (fragments print level))) := by
  induction pieces with
  | nil => rfl
  | cons piece pieces ih =>
      have hmore := ih fun other hother => h other (List.mem_cons_of_mem piece hother)
      have hpiece := h piece List.mem_cons_self
      cases pieces with
      | nil =>
          simp only [separated_singleton, List.mapM_cons, List.mapM_nil, bind_assoc, pure_bind]
          simp [Fragment.separated]
      | cons next pieces =>
          rw [separated_cons_cons, fragments_append (hpiece.append hseparator),
            fragments_append hpiece, hbetween, hmore]
          simp only [List.mapM_cons, bind_assoc, pure_bind, Fragment.separated,
            List.intersperse_cons_cons, List.flatten_cons, List.append_assoc]

theorem fragments_list (ids : List NodeId) :
    fragments print level (list ids) = (do return Fragment.list (← ids.mapM (print level))) := by
  rw [list, fragments_separated (balanced_puts _) (fragments_puts _) _ (by simp),
    List.mapM_map]
  simp only [Function.comp_def, fragments_node_nil, Fragment.list]

theorem fragments_elements (ids : List (Option NodeId)) :
    fragments print level (elements ids) = (do
      return elementFragments (← ids.mapM fun id => id.mapM (print level))) := by
  have hpieces : ids.mapM (fun id => fragments print level (optional [] id)) = (do
      return (← ids.mapM fun id => id.mapM (print level)).map (·.getD [])) := by
    induction ids with
    | nil => rfl
    | cons id ids ih =>
        rw [List.mapM_cons, List.mapM_cons, ih, fragments_optional]
        simp only [bind_assoc, pure_bind, List.map_cons, Fragment.optional_nil]
  have hclosing : fragments print level
    (if ids.getLast? = some none then [put (mark .comma)] else [])
      = pure (if ids.getLast? = some none then [mark .comma] else []) := by
    split <;> rfl
  rw [elements, fragments_append (balanced_separated (balanced_puts _) (by simp)), hclosing,
    fragments_separated (balanced_puts _) (fragments_puts _) _ (by simp), List.mapM_map]
  simp only [Function.comp_def, hpieces, bind_assoc, pure_bind]
  cases hparts : ids.mapM fun id => id.mapM (print level) with
  | error fault => rfl
  | ok parts =>
      show _ = Except.ok (elementFragments parts)
      rw [elementFragments_of_mapM hparts]
      rfl

theorem fragments_lines (ids : List NodeId) :
    fragments print level (lines ids) = (do
      return Fragment.lines level (← ids.mapM (print level))) := by
  induction ids with
  | nil => rfl
  | cons id ids ih =>
      show fragments print level (newline :: node id :: lines ids) = _
      simp only [fragments, ih, List.mapM_cons, bind_assoc, pure_bind]
      rfl

theorem fragments_inside (ids : List NodeId) :
    fragments print level (inside ids) = (do
      return Fragment.lines (level + 1) (← ids.mapM (print (level + 1)))) := by
  simp only [inside, List.cons_append, fragments, fragments_append (balanced_lines ids),
    fragments_lines, bind_assoc, pure_bind, List.append_nil]

theorem fragments_blockBody (ids : List NodeId) :
    fragments print level (blockBody ids) = (do
      return braces level (← ids.mapM (print (level + 1)))) := by
  cases ids with
  | nil => rfl
  | cons id ids =>
      simp only [blockBody, List.cons_append, fragments, fragments_append (balanced_inside _),
        fragments_inside, List.mapM_cons, bind_assoc, pure_bind, braces, enclosed,
        List.append_assoc]
      rfl

theorem fragments_header (k : Keyword) {condition : List Instruction} (h : Balanced condition) :
    fragments print level (header k condition) = (do
      return Fragment.header k (← fragments print level condition)) := by
  rw [header, fragments_append ((balanced_puts _).append h), fragments_append (balanced_puts _),
    fragments_puts, fragments_puts]
  simp only [bind_assoc, pure_bind, Fragment.header, parens, enclosed, List.append_assoc,
    List.cons_append, List.nil_append]

theorem fragments_jump (k : Keyword) (part : Option NodeId) :
    fragments print level (jump k part) = (do
      return wordStatement k (← part.mapM (print level))) := by
  simp only [jump, List.cons_append, fragments, fragments_append (balanced_optional _ _),
    fragments_optional, bind_assoc, pure_bind, wordStatement]

end Instruction

/-- What a renderer does for a node is what the node is printed as. -/
theorem Node.fragments_eq (print : Nat → NodeId → Except TreeFault (List Fragment)) (level : Nat)
    (n : Node) : n.fragments print level = Instruction.fragments print level n.instructions := by
  cases n
  case identifier | number | string | boolean | nullValue | thisValue | regExp | empty | skipped =>
    rfl
  case construction target arguments =>
    cases arguments <;>
      simp [-bind_pure_comp, Node.fragments, instructions, Instruction.fragments,
        fragments_append, fragments_list, fragments_puts, Fragment.optional, parens, enclosed]
  case update operator side operand =>
    cases side <;>
      simp [-bind_pure_comp, Node.fragments, instructions, Instruction.fragments]
  case switchCase test body =>
    cases test <;>
      simp [-bind_pure_comp, Node.fragments, instructions, Instruction.fragments,
        fragments_append, fragments_inside, fragments_puts]
  case script statements =>
    rw [instructions, fragments_separated (balanced_newline.mpr .nil) rfl _ (by simp),
      List.mapM_map]
    simp only [Function.comp_def, fragments_node_nil, Node.fragments]
  case «variables» declared statement =>
    cases statement <;>
      simp [-bind_pure_comp, Node.fragments, instructions, Instruction.fragments,
        fragments_append, fragments_list, fragments_puts]
  all_goals
    simp [-bind_pure_comp, Node.fragments, instructions, Instruction.fragments, fragments_append,
      fragments_puts, fragments_optional, fragments_list, fragments_elements, fragments_blockBody,
      fragments_header, fragments_jump, Fragment.optional_nil, parens, enclosed]

/-!
## The parts that are met
-/

namespace Instruction

def parts : List Instruction → List NodeId
  | [] => []
  | .node id :: more => id :: parts more
  | _ :: more => parts more

@[simp] theorem parts_nil : parts [] = [] :=
  rfl

@[simp] theorem parts_put (fragment : Fragment) (more : List Instruction) :
    parts (put fragment :: more) = parts more :=
  rfl

@[simp] theorem parts_newline (more : List Instruction) : parts (newline :: more) = parts more :=
  rfl

@[simp] theorem parts_deeper (more : List Instruction) : parts (deeper :: more) = parts more :=
  rfl

@[simp] theorem parts_shallower (more : List Instruction) :
    parts (shallower :: more) = parts more :=
  rfl

@[simp] theorem parts_node (id : NodeId) (more : List Instruction) :
    parts (node id :: more) = id :: parts more :=
  rfl

@[simp] theorem parts_append (front back : List Instruction) :
    parts (front ++ back) = parts front ++ parts back := by
  induction front with
  | nil => rfl
  | cons instruction front ih => cases instruction <;> simp [ih]

@[simp] theorem parts_puts (fragments : List Fragment) : parts (puts fragments) = [] := by
  induction fragments with
  | nil => rfl
  | cons fragment fragments ih => exact ih

@[simp] theorem parts_optional (lead : List Fragment) (part : Option NodeId) :
    parts (optional lead part) = part.toList := by
  cases part <;> simp [optional]

theorem parts_separated {separator : List Instruction} (hseparator : parts separator = []) :
    forall pieces : List (List Instruction),
      parts (separated separator pieces) = pieces.flatMap parts
  | [] => rfl
  | [piece] => by simp [separated_singleton]
  | piece :: next :: pieces => by
      have hmore := parts_separated hseparator (next :: pieces)
      rw [separated_cons_cons, parts_append, parts_append, hseparator, hmore]
      simp

@[simp] theorem parts_list (ids : List NodeId) : parts (list ids) = ids := by
  rw [list, parts_separated (parts_puts _), List.flatMap_map]
  exact List.flatMap_singleton' ids

@[simp] theorem parts_elements (ids : List (Option NodeId)) :
    parts (elements ids) = ids.filterMap id := by
  have hclosing : parts (if ids.getLast? = some none then [put (mark .comma)] else []) = [] := by
    split <;> rfl
  rw [elements, parts_append, hclosing, parts_separated (parts_puts _), List.flatMap_map,
    List.append_nil, List.filterMap_eq_flatMap_toList]
  simp

@[simp] theorem parts_lines (ids : List NodeId) : parts (lines ids) = ids := by
  induction ids with
  | nil => rfl
  | cons id ids ih => exact congrArg (id :: ·) ih

@[simp] theorem parts_inside (ids : List NodeId) : parts (inside ids) = ids := by
  simp [inside]

@[simp] theorem parts_blockBody (ids : List NodeId) : parts (blockBody ids) = ids := by
  cases ids <;> simp [blockBody]

@[simp] theorem parts_header (k : Keyword) (condition : List Instruction) :
    parts (header k condition) = parts condition := by
  simp [header]

@[simp] theorem parts_jump (k : Keyword) (part : Option NodeId) :
    parts (jump k part) = part.toList := by
  simp [jump]

end Instruction

theorem Node.parts_instructions (n : Node) : Instruction.parts n.instructions = n.children := by
  cases n
  case script statements =>
    rw [instructions, parts_separated rfl, List.flatMap_map]
    exact List.flatMap_singleton' statements
  case construction target arguments => cases arguments <;> simp [instructions, children]
  case update operator side operand => cases side <;> simp [instructions, children]
  case switchCase test body => cases test <;> simp [instructions, children]
  case «variables» declared statement => cases statement <;> simp [instructions, children]
  all_goals simp [instructions, children]

end Syntax
end ScriptHints
