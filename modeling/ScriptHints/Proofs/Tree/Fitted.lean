import ScriptHints.Proofs.Parallel.Basic
import ScriptHints.Proofs.Tree.GoalsGrown

/-!
# Nodes and what their parts are

A node wants its parts to be of some sort: an operation begins with an operand, an access
names a member, and a variable is given a new name. Every reading keeps to that, whether it
succeeds or not, so it holds of all nodes of a tree, of those that recovery has left behind
as well. This module gives the laws of the single steps; the rules of the grammar are composed
of them.
-/

namespace ScriptHints

open Token

namespace Syntax

/-- An expression that is no sequence, as operands, arguments and initial values are. -/
def Node.isValue : Node → Bool
  | .sequence _ => false
  | n => n.isExpression

def Node.leftOperand? : Node → Option NodeId
  | .binary _ left _ => some left
  | .assignment _ target _ => some target
  | .propertyAccess target _ => some target
  | .elementAccess target _ => some target
  | .call target _ => some target
  | .update _ .behind operand => some operand
  | .conditional test _ _ => some test
  | _ => none

namespace SyntaxTree

def HasValue (t : SyntaxTree) (id : NodeId) : Prop :=
  exists n, t.node id = .ok n ∧ n.isValue = true

def HasName (t : SyntaxTree) (id : NodeId) : Prop :=
  exists name, t.node id = .ok (.identifier name)

def HasNewName (stream : TokenStream) (t : SyntaxTree) (id : NodeId) : Prop :=
  exists i, (stream.get i).kind = .identifier ∧
    t.node id = .ok (.identifier (stream.get i).lexeme)

end SyntaxTree

/-- The parts of a node are of the sort that it wants, and a leaf holds a token of the stream.
A script is no part of anything. -/
def Node.Fits (stream : TokenStream) (t : SyntaxTree) : Node → Prop
  | .script _ => False
  | .skipped _ => True
  | .propertyAccess target name => t.HasValue target ∧ t.HasName name
  | .variable target initializer =>
      t.HasNewName stream target ∧ forall value, initializer = some value -> t.HasValue value
  | n =>
      (n.isLeaf = true -> exists i, n.Holds (stream.get i)) ∧
        forall id, n.leftOperand? = some id -> t.HasValue id

def SyntaxTree.Fitted (stream : TokenStream) (t : SyntaxTree) : Prop :=
  forall id n, t.node id = .ok n -> n.Fits stream t

section

variable {stream : TokenStream} {t t' : SyntaxTree} {id : NodeId}

theorem SyntaxTree.HasValue.mono (h : t.HasValue id) (hext : t.Extends t') : t'.HasValue id := by
  rcases h with ⟨n, hnode, hvalue⟩
  exact ⟨n, hext.node_eq hnode, hvalue⟩

theorem SyntaxTree.HasName.mono (h : t.HasName id) (hext : t.Extends t') : t'.HasName id := by
  rcases h with ⟨name, hnode⟩
  exact ⟨name, hext.node_eq hnode⟩

theorem SyntaxTree.HasNewName.mono (h : t.HasNewName stream id) (hext : t.Extends t') :
    t'.HasNewName stream id := by
  rcases h with ⟨i, hkind, hnode⟩
  exact ⟨i, hkind, hext.node_eq hnode⟩

theorem Node.Fits.mono {n : Node} (h : n.Fits stream t) (hext : t.Extends t') :
    n.Fits stream t' := by
  unfold Fits at h ⊢
  split at h
  next => exact h
  next => trivial
  next => exact ⟨h.1.mono hext, h.2.mono hext⟩
  next => exact ⟨h.1.mono hext, fun value heq => (h.2 value heq).mono hext⟩
  next => exact ⟨h.1, fun id heq => (h.2 id heq).mono hext⟩

theorem Node.Fits.withRoot {n : Node} (h : n.Fits stream t) (root : NodeId) :
    n.Fits stream (t.withRoot root) :=
  h

theorem Node.Holds.fits {n : Node} {i : Nat} (h : n.Holds (stream.get i)) : n.Fits stream t := by
  cases n with
  | identifier | number | string | boolean | regExp | nullValue | thisValue =>
      exact ⟨fun _ => ⟨i, h⟩, nofun⟩
  | _ => exact h.elim

namespace SyntaxTree

theorem index_lt_of_node {n : Node} (h : t.node id = .ok n) : id.index < t.size := by
  unfold SyntaxTree.node SyntaxTree.entry at h
  cases hentry : t.get? id with
  | none =>
      rw [hentry] at h
      cases h
  | some entry => exact index_lt_of_get? hentry

theorem fitted_empty : empty.Fitted stream := by
  intro id n h
  cases h

/-- A node of a tree with an added node is that node or was there before. -/
theorem eq_or_node_of_add {node n : Node} {span : Span} (h : (t.add node span).node id = .ok n) :
    (id = t.nextId ∧ n = node) ∨ t.node id = .ok n := by
  by_cases hid : id = t.nextId
  · rw [hid, node_add_nextId] at h
    cases h
    exact .inl ⟨hid, rfl⟩
  · right
    unfold SyntaxTree.node SyntaxTree.entry at h ⊢
    rw [get?_add, if_neg hid] at h
    cases hentry : t.get? id with
    | none =>
        rw [hentry] at h
        cases h
    | some entry =>
        rw [hentry] at h
        have h : (entry.adoptedBy id t.nextId node).node = n := by
          injection h
        rw [Entry.adoptedBy_node] at h
        rw [← h]
        rfl

theorem Fitted.add (h : t.Fitted stream) {node : Node} (span : Span)
    (hnode : node.Fits stream t) : (t.add node span).Fitted stream := by
  have hext := extends_add t node span
  intro id n hn
  rcases eq_or_node_of_add hn with ⟨_, rfl⟩ | hold
  · exact hnode.mono hext
  · exact (h id n hold).mono hext

end SyntaxTree

end

end Syntax

namespace Grammar

open Syntax

/-!
## Readings
-/

def Still (x : Reader α) : Prop :=
  forall s, (finalState (x s)).tree = s.tree

def Builds (stream : TokenStream) (t : SyntaxTree) (x : Reader α)
    (post : α → SyntaxTree → Prop) : Prop :=
  forall s, s.tree = t -> t.Fitted stream ->
    match x s with
    | .ok a s' => t.Extends s'.tree ∧ s'.tree.Fitted stream ∧ post a s'.tree
    | .error _ s' => t.Extends s'.tree ∧ s'.tree.Fitted stream

abbrev Anything : α → SyntaxTree → Prop :=
  fun _ _ => True

section

variable (c : Context)

theorem still_position : Still position := fun _ => rfl

theorem still_peek : Still (peek c) := fun _ => rfl

theorem still_peekKind : Still (peekKind c) := fun _ => rfl

theorem still_advance : Still (advance c) := by
  intro s
  rw [advance_eq]
  exact s.tree_moved c

theorem still_accept (kind : TokenKind) : Still (accept c kind) := by
  intro s
  rw [accept_eq]
  split
  next => exact s.tree_moved c
  next => rfl

theorem still_expect (mark : Punctuator) (what : Expectation) : Still (expect c mark what) := by
  intro s
  rw [expect_eq]
  split
  next => exact s.tree_moved c
  next => rfl

theorem still_report (level : Level) (message : String) (span : Span) :
    Still (report c level message span) := by
  intro s
  rw [report_eq]
  show (if c.options.report then _ else s).tree = _
  split <;> rfl

theorem still_closedByEnd (what : Expectation) : Still (warnClosedByEnd c what) := by
  intro s
  rw [warnClosedByEnd_eq]
  show (if c.options.report then _ else s).tree = _
  split <;> rfl

theorem still_closing (mark : Punctuator) (what : Expectation) :
    Still (expectClosing c mark what) := by
  intro s
  rw [expectClosing_eq]
  split
  next => exact still_closedByEnd c what s
  next => exact still_expect c mark what s

theorem still_endStatement (what : Expectation) : Still (endStatement c what) := by
  intro s
  rw [endStatement_eq]
  split
  next => exact s.tree_moved c
  next => split <;> rfl

end

namespace Builds

variable {stream : TokenStream} {t : SyntaxTree} {post : α → SyntaxTree → Prop}

theorem pure {a : α} (h : post a t) : Builds stream t (pure a) post := by
  rintro s rfl hfitted
  exact ⟨.refl _, hfitted, h⟩

theorem fail (c : Context) (fault : SyntaxFault) :
    Builds stream t (fail c fault : Reader α) post := by
  rintro s rfl hfitted
  exact ⟨.refl _, hfitted⟩

theorem bind {x : Reader β} {k : β → Reader α} {middle : β → SyntaxTree → Prop}
    (hx : Builds stream t x middle)
    (hk : forall a t', t.Extends t' -> middle a t' -> Builds stream t' (k a) post) :
    Builds stream t (x >>= k) post := by
  intro s hs hfitted
  have hfirst := hx s hs hfitted
  cases heq : x s with
  | error e s₁ =>
      rw [heq] at hfirst
      rw [bind_of_error heq]
      exact hfirst
  | ok a s₁ =>
      rw [heq] at hfirst
      rw [bind_of_ok heq]
      rcases hfirst with ⟨hext, hfitted₁, hmiddle⟩
      have hrest := hk a s₁.tree hext hmiddle s₁ rfl hfitted₁
      cases hresult : k a s₁ with
      | error e s₂ =>
          rw [hresult] at hrest
          exact ⟨hext.trans hrest.1, hrest.2⟩
      | ok b s₂ =>
          rw [hresult] at hrest
          exact ⟨hext.trans hrest.1, hrest.2⟩

theorem still {x : Reader β} {k : β → Reader α} (hx : Still x)
    (hk : forall a, Builds stream t (k a) post) : Builds stream t (x >>= k) post := by
  intro s hs hfitted
  have hsame := hx s
  cases heq : x s with
  | error e s₁ =>
      rw [heq] at hsame
      have hsame : s₁.tree = t := hsame.trans hs
      rw [bind_of_error heq]
      exact ⟨hsame ▸ .refl _, hsame ▸ hfitted⟩
  | ok a s₁ =>
      rw [heq] at hsame
      rw [bind_of_ok heq]
      exact hk a s₁ (hsame.trans hs) hfitted

theorem mono {x : Reader α} {post' : α → SyntaxTree → Prop} (hx : Builds stream t x post)
    (himp : forall a t', post a t' -> post' a t') : Builds stream t x post' := by
  intro s hs hfitted
  have hresult := hx s hs hfitted
  cases heq : x s with
  | error e s₁ =>
      rw [heq] at hresult
      exact hresult
  | ok a s₁ =>
      rw [heq] at hresult
      exact ⟨hresult.1, hresult.2.1, himp a _ hresult.2.2⟩

theorem any {x : Reader α} (hx : Builds stream t x post) : Builds stream t x Anything :=
  hx.mono fun _ _ _ => trivial

theorem map {x : Reader β} {f : β → α}
    (hx : Builds stream t x fun b t' => post (f b) t') : Builds stream t (f <$> x) post := by
  rw [map_eq_pure_bind]
  exact hx.bind fun b t' _ h => .pure h

theorem ite {p : Prop} [Decidable p] {x y : Reader α} (hx : Builds stream t x post)
    (hy : Builds stream t y post) : Builds stream t (if p then x else y) post := by
  split
  next => exact hx
  next => exact hy

theorem branch {p : Prop} {_ : Decidable p} {x y : Reader β} {k : β → Reader α}
    (middle : β → SyntaxTree → Prop) (hx : Builds stream t x middle) (hy : Builds stream t y middle)
    (hk : forall a t', t.Extends t' -> middle a t' -> Builds stream t' (k a) post) :
    Builds stream t (if p then x >>= k else y >>= k) post :=
  .ite (hx.bind hk) (hy.bind hk)

theorem look {c : Context} (hc : c.stream = stream) {k : Token → Reader α}
    (hk : forall i, Builds stream t (k (stream.get i)) post) :
    Builds stream t (peek c >>= k) post := by
  intro s hs hfitted
  rw [bind_peek, Context.next, hc]
  exact hk s.position s hs hfitted

theorem nested {c : Context} {k : Context → Reader α}
    (hk : Builds stream t (k c.deeper) post) : Builds stream t (nested c k) post :=
  .ite (.fail c .tooDeep) hk

theorem add {c : Context} {start : Nat} {node : Node} {post : NodeId → SyntaxTree → Prop}
    (hnode : node.Fits stream t) (hpost : forall id t', t'.node id = .ok node -> post id t') :
    Builds stream t (addSince c start node) post := by
  rintro s rfl hfitted
  rw [addSince_eq]
  exact ⟨SyntaxTree.extends_add _ _ _, hfitted.add _ hnode,
    hpost _ _ (SyntaxTree.node_add_nextId _ _ _)⟩

theorem addAny {c : Context} {start : Nat} {node : Node} (hnode : node.Fits stream t) :
    Builds stream t (addSince c start node) Anything :=
  .add hnode fun _ _ _ => trivial

theorem addValue {c : Context} {start : Nat} {node : Node} (hnode : node.Fits stream t)
    (hvalue : node.isValue = true) :
    Builds stream t (addSince c start node) fun id t' => t'.HasValue id :=
  .add hnode fun _ _ hadded => ⟨node, hadded, hvalue⟩

/-- The nodes of a reading that failed are left behind, and its statement is skipped. -/
theorem recovering {c : Context} {x : Reader NodeId} (hx : Builds stream t x Anything) :
    Builds stream t (recovering c x) Anything := by
  intro s hs hfitted
  have hresult := hx s hs hfitted
  rw [recovering_eq]
  by_cases hrecover : c.options.recover = true
  · rw [if_pos hrecover]
    cases heq : x s with
    | ok id s₁ =>
        rw [heq] at hresult
        exact hresult
    | error e s₁ =>
        rw [heq] at hresult
        have hreported : (if c.options.report then s₁.reported
            ⟨.error, e.message, some (Span.ofToken (c.stream.get s.position))⟩
            else s₁).tree = s₁.tree := by
          split <;> rfl
        simp only [skipStatement_eq, addSince_eq]
        refine ⟨?_, ?_, trivial⟩
        · show t.Extends (SyntaxTree.add _ _ _)
          rw [hreported]
          exact hresult.1.trans (SyntaxTree.extends_add _ _ _)
        · show (SyntaxTree.add _ _ _).Fitted stream
          rw [hreported]
          exact hresult.2.add _ trivial
  · rw [if_neg hrecover]
    exact hresult

end Builds

/-!
## Goals
-/

def Goal.Continues (t : SyntaxTree) : Goal → Prop
  | .binaryTail _ _ left => t.HasValue left
  | .memberTail _ _ front => t.HasValue front
  | _ => True

def Goal.Gives : (goal : Goal) → goal.Result → SyntaxTree → Prop
  | .assignment, id, t => t.HasValue id
  | .binary _, id, t => t.HasValue id
  | .binaryTail _ _ _, id, t => t.HasValue id
  | .unary, id, t => t.HasValue id
  | .member _, id, t => t.HasValue id
  | .memberTail _ _ _, id, t => t.HasValue id
  | _, _, _ => True

/-- Every goal is reached so that all added nodes have the parts that they want. -/
def Strategy.Builds (stream : TokenStream) (reach : Strategy) : Prop :=
  forall (goal : Goal) (c : Context) (t : SyntaxTree), c.stream = stream -> goal.Continues t ->
    Grammar.Builds stream t (reach goal c) goal.Gives

end Grammar
end ScriptHints
