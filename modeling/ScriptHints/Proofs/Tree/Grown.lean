import ScriptHints.Proofs.Tree.Grouping
import ScriptHints.Proofs.Tree.Leaves

/-!
# What readings grow

A reading that succeeds adds a forest to the tree: its nodes are new, its leaves come from
the tokens that have been read, and an added node adopts the roots that stood side by side.
A reading that fails may have added nodes, too, but has left all older ones alone. This
module gives the laws of the single steps; the rules of the grammar are composed of them.
-/

namespace ScriptHints
namespace Grammar

open Syntax Token

def Context.base (c : Context) : Context :=
  { c with allowIn := true, depth := 0 }

/-!
## Older nodes
-/

structure Kept (t₀ t : SyntaxTree) : Prop where
  size_le : t₀.size ≤ t.size
  same : forall id : NodeId, id.index < t₀.size -> t.get? id = t₀.get? id
  sound : t₀.Sound -> t.Sound
  filled : t₀.Filled -> t.Filled

theorem Kept.refl (t : SyntaxTree) : Kept t t where
  size_le := Nat.le_refl _
  same _ _ := rfl
  sound := id
  filled := id

theorem Kept.trans {t₀ t₁ t₂ : SyntaxTree} (h : Kept t₀ t₁) (h' : Kept t₁ t₂) : Kept t₀ t₂ where
  size_le := h.size_le.trans h'.size_le
  same id hid := by rw [h'.same id (Nat.lt_of_lt_of_le hid h.size_le), h.same id hid]
  sound hsound := h'.sound (h.sound hsound)
  filled hfilled := h'.filled (h.filled hfilled)

/-- A node that adopts no older node leaves all of them as they are. -/
theorem Kept.add {t₀ t : SyntaxTree} (h : Kept t₀ t) (span : Span) {node : Node}
    (hnew : forall id, id ∈ node.children -> t₀.size ≤ id.index ∧ id.index < t.size)
    (hfilled : node.isJoined = true -> node.children ≠ []) : Kept t₀ (t.add node span) where
  size_le := by
    rw [SyntaxTree.size_add]
    exact h.size_le.trans (Nat.le_succ _)
  same id hid := by
    rw [Forest.get?_add_of_not_mem (Nat.lt_of_lt_of_le hid h.size_le), h.same id hid]
    intro hchild
    exact absurd (hnew id hchild).1 (Nat.not_le_of_lt hid)
  sound hsound := (h.sound hsound).add _ fun id hid => (hnew id hid).2
  filled hbefore := (h.filled hbefore).add _ hfilled

theorem get?_added (s : State) (c : Context) (start : Nat) (node : Node) :
    (s.added c start node).tree.get? s.tree.nextId =
      some { node := node, span := c.spanOf start s.position, parent := none } := by
  show (s.tree.add node _).get? s.tree.nextId = _
  rw [SyntaxTree.get?_add, if_pos rfl]

/-!
## Grown forests
-/

/-- Between two states just the nodes of a forest have been read from the tokens. -/
structure Since (b : Context) (s₀ s : State) (f : Forest) : Prop where
  ended : b.stream.Ended
  kept : Kept s₀.tree s.tree
  entries : f.In b.spanOf s.tree none
  /-- The nodes are new, and each is younger than the nodes below it. -/
  ordered : f.postOrder.Sublist (idsBetween s₀.tree.size s.tree.size)
  /-- Only recovery leaves nodes behind that belong to no tree. -/
  whole : b.options.recover = false -> f.postOrder = idsBetween s₀.tree.size s.tree.size
  covers : Covers b s₀.position f s.position
  wide : AllWide b.edge f
  grouped : f.Grouped

namespace Since

variable {b c : Context} {s₀ s s' : State} {f g : Forest}

theorem refl (ended : b.stream.Ended) (s : State) : Since b s s .nil where
  ended := ended
  kept := .refl s.tree
  entries := trivial
  ordered := List.nil_sublist _
  whole _ := (idsBetween_self _).symm
  covers := Quiet.refl _ _
  wide := trivial
  grouped := trivial

theorem nodup (h : Since b s₀ s f) : f.postOrder.Nodup :=
  h.ordered.nodup (nodup_idsBetween _ _)

theorem between (h : Since b s₀ s f) {id : NodeId} (hid : id ∈ f.postOrder) :
    s₀.tree.size ≤ id.index ∧ id.index < s.tree.size :=
  mem_idsBetween_iff.mp (h.ordered.subset hid)

theorem onward (h : Since b s₀ s f) : s₀.position ≤ s.position :=
  h.covers.le

theorem append (h : Since b s₀ s f) (h' : Since b s s' g) : Since b s₀ s' (f ++ g) where
  ended := h.ended
  kept := h.kept.trans h'.kept
  entries := by
    refine Forest.In.append (h.entries.congr ?_) h'.entries
    intro id hid
    exact h'.kept.same id (h.entries.index_lt hid)
  ordered := by
    rw [Forest.postOrder_append, ← idsBetween_append h.kept.size_le h'.kept.size_le]
    exact h.ordered.append h'.ordered
  whole hstrict := by
    rw [Forest.postOrder_append, ← idsBetween_append h.kept.size_le h'.kept.size_le,
      h.whole hstrict,
      h'.whole hstrict]
  covers := h.covers.append h'.covers
  wide := h.wide.append h'.wide
  grouped := h.grouped.append h'.grouped

theorem nothing (h : Since b s₀ s f) : Since b s₀ s (f ++ .nil) := by
  rw [f.append_nil]
  exact h

theorem reported (h : Since b s₀ s f) (d : Diagnostic) : Since b s₀ (s.reported d) f :=
  { h with kept := h.kept }

theorem moved (h : Since c.base s₀ s f) (hquiet : (c.next s).kind.isOperand = false) :
    Since c.base s₀ (s.moved c) f := by
  unfold State.moved
  split
  next =>
    exact { h with
      kept := h.kept
      covers := h.covers.quiet (.one hquiet) }
  next => exact h

theorem added (h : Since c.base s₀ s f) {node : Node} (hchildren : node.children = f.roots)
    (hinner : node.isLeaf = false) (hwide : Wide c.edge s₀.position s.position)
    (hgroups : node.Groups f.rootNodes)
    (hfree : node.isConstruction = true -> f.callFree = true) :
    Since c.base s₀ (s.added c s₀.position node)
      (.tree s.tree.nextId node s₀.position s.position f) where
  ended := h.ended
  kept := by
    apply h.kept.add
    · rw [hchildren]
      intro id hroot
      exact h.between (f.roots_sublist_postOrder.subset hroot)
    · apply node.children_ne_nil_of_groups hgroups
      rw [hchildren, f.length_roots]
  entries := by
    refine ⟨get?_added s c.base s₀.position node, hchildren, ?_, trivial⟩
    apply h.entries.adopted h.nodup
    · intro id hid
      rw [hchildren]
      exact hid
    · intro id hid _
      rw [← hchildren]
      exact hid
  ordered := by
    show (Forest.postOrder _).Sublist (idsBetween s₀.tree.size (s.tree.add node _).size)
    rw [Forest.postOrder_tree, SyntaxTree.size_add, idsBetween_succ h.kept.size_le]
    exact h.ordered.append (List.Sublist.refl _)
  whole hstrict := by
    show Forest.postOrder _ = idsBetween s₀.tree.size (s.tree.add node _).size
    rw [Forest.postOrder_tree, SyntaxTree.size_add, idsBetween_succ h.kept.size_le, h.whole hstrict]
    rfl
  covers := by
    refine ⟨.refl _ _, ?_, .refl _ _⟩
    rw [if_neg (by rw [hinner]; exact nofun)]
    exact h.covers
  wide := ⟨hwide, h.wide, trivial⟩
  grouped := ⟨hgroups, hfree, h.grouped, trivial⟩

theorem wide_of_adopts (h : Since c.base s₀ s f) {node : Node}
    (hchildren : node.children = f.roots) (hadopts : node.adopts = true) :
    Wide c.edge s₀.position s.position := by
  apply h.covers.wide h.wide
  rw [← hchildren]
  exact node.children_ne_nil_of_adopts hadopts

theorem leaf (ended : c.stream.Ended) (hkept : Kept s₀.tree s.tree) {node : Node}
    (hleaf : node.isLeaf = true)
    (hwhole : c.options.recover = false -> s.tree.size = s₀.tree.size)
    (hwide : Wide c.edge s₀.position s.position)
    (hover : LeafOver c.base node s₀.position s.position) :
    Since c.base s₀ (s.added c s₀.position node)
      (.tree s.tree.nextId node s₀.position s.position .nil) where
  ended := ended
  kept := by
    apply hkept.add
    · rw [node.children_of_isLeaf hleaf]
      exact nofun
    · intro hjoined
      rw [node.isJoined_of_isLeaf hleaf] at hjoined
      cases hjoined
  entries :=
    ⟨get?_added s c.base s₀.position node, node.children_of_isLeaf hleaf, trivial, trivial⟩
  ordered := by
    show (Forest.postOrder _).Sublist (idsBetween s₀.tree.size (s.tree.add node _).size)
    rw [Forest.postOrder_tree, SyntaxTree.size_add, idsBetween_succ hkept.size_le]
    exact List.sublist_append_right _ _
  whole hstrict := by
    show Forest.postOrder _ = idsBetween s₀.tree.size (s.tree.add node _).size
    rw [Forest.postOrder_tree, SyntaxTree.size_add, hwhole hstrict,
      idsBetween_succ (Nat.le_refl _), idsBetween_self]
    show [s.tree.nextId] = [⟨s₀.tree.size⟩]
    rw [← hwhole hstrict]
    rfl
  covers := by
    refine ⟨.refl _ _, ?_, .refl _ _⟩
    rw [if_pos hleaf]
    exact ⟨hover, rfl⟩
  wide := ⟨hwide, trivial, trivial⟩
  grouped := ⟨node.groups_of_isLeaf hleaf, fun _ => rfl, trivial, trivial⟩

end Since

/-!
## Moving
-/

theorem le_moved (c : Context) (s : State) : s.position ≤ (s.moved c).position := by
  unfold State.moved
  split
  next => exact Nat.le_succ _
  next => exact Nat.le_refl _

theorem moved_of_kind_ne {c : Context} (ended : c.stream.Ended) {s : State}
    (hkind : (c.next s).kind ≠ .endOfText) :
    s.moved c = { s with position := s.position + 1 } := by
  have hlt : s.position < c.stream.size := by
    apply Nat.lt_of_not_le
    intro hle
    exact hkind ((ended.kind_get_eq_iff s.position).mpr hle)
  unfold State.moved
  rw [if_pos hlt]

theorem moved_position {c : Context} (ended : c.stream.Ended) {s : State}
    (hkind : (c.next s).kind ≠ .endOfText) : (s.moved c).position = s.position + 1 := by
  rw [moved_of_kind_ne ended hkind]

/-!
## Readings

A reading is described from the state on in which the rule around it began, so that the
forest holds everything that the rule has read so far.
-/

/-- A reading that succeeds has grown a forest since `s₀`, and older nodes are kept if not. -/
def Grows (c : Context) (s₀ : State) (x : Reader α) (s : State)
    (post : α → Forest → State → Prop) : Prop :=
  match x s with
  | .ok a s' => exists f, Since c.base s₀ s' f ∧ post a f s'
  | .error _ s' => Kept s₀.tree s'.tree

namespace Grows

variable {c : Context} {s₀ s : State} {f : Forest} {post : α → Forest → State → Prop}

theorem pure {a : α} (h : Since c.base s₀ s f) (hpost : post a f s) :
    Grows c s₀ (pure a) s post :=
  ⟨f, h, hpost⟩

theorem fail (h : Since c.base s₀ s f) (fault : SyntaxFault) :
    Grows c s₀ (fail c fault : Reader α) s post :=
  h.kept

theorem bind {x : Reader β} {k : β → Reader α} {middle : β → Forest → State → Prop}
    (hx : Grows c s₀ x s middle)
    (hk : forall a g s', Since c.base s₀ s' g -> middle a g s' -> Grows c s₀ (k a) s' post) :
    Grows c s₀ (x >>= k) s post := by
  unfold Grows at hx ⊢
  cases heq : x s with
  | ok a s' =>
      rw [heq] at hx
      rw [bind_of_ok heq]
      rcases hx with ⟨g, hgrown, hmiddle⟩
      exact hk a g s' hgrown hmiddle
  | error e s' =>
      rw [heq] at hx
      rw [bind_of_error heq]
      exact hx

theorem mono {x : Reader α} {post' : α → Forest → State → Prop} (hx : Grows c s₀ x s post)
    (himp : forall a g s', Since c.base s₀ s' g -> post a g s' -> post' a g s') :
    Grows c s₀ x s post' := by
  unfold Grows at hx ⊢
  cases heq : x s with
  | ok a s' =>
      rw [heq] at hx
      rcases hx with ⟨g, hgrown, hpost⟩
      exact ⟨g, hgrown, himp a g s' hgrown hpost⟩
  | error e s' =>
      rw [heq] at hx
      exact hx

theorem map {x : Reader β} {k : β → α} {middle : β → Forest → State → Prop}
    (hx : Grows c s₀ x s middle)
    (himp : forall a g s', middle a g s' -> post (k a) g s') :
    Grows c s₀ (k <$> x) s post := by
  rw [map_eq_pure_bind]
  apply hx.bind
  intro a g s' hgrown hmiddle
  exact pure hgrown (himp a g s' hmiddle)

/-- What is read inside a rule stands beside what the rule has read before. -/
theorem beside {x : Reader α} (h : Since c.base s₀ s f) (hx : Grows c s x s post) :
    Grows c s₀ x s fun a g s' => exists added, g = f ++ added ∧ post a added s' := by
  unfold Grows at hx ⊢
  cases heq : x s with
  | ok a s' =>
      rw [heq] at hx
      rcases hx with ⟨added, hgrown, hpost⟩
      exact ⟨f ++ added, h.append hgrown, added, rfl, hpost⟩
  | error e s' =>
      rw [heq] at hx
      exact h.kept.trans hx

theorem insideOnward {x : Reader β} {k : β → Reader α} {middle : β → Forest → State → Prop}
    (h : Since c.base s₀ s f) (hx : Grows c s x s middle)
    (hk : forall a g s', s.position ≤ s'.position -> Since c.base s₀ s' (f ++ g) ->
      middle a g s' -> Grows c s₀ (k a) s' post) :
    Grows c s₀ (x >>= k) s post := by
  have honward : Grows c s x s fun a g s' => s.position ≤ s'.position ∧ middle a g s' := by
    apply hx.mono
    intro a g s' hgrown hmiddle
    exact ⟨hgrown.onward, hmiddle⟩
  apply (beside h honward).bind
  rintro a _ s' hgrown ⟨g, rfl, hle, hmiddle⟩
  exact hk a g s' hle hgrown hmiddle

theorem inside {x : Reader β} {k : β → Reader α} {middle : β → Forest → State → Prop}
    (h : Since c.base s₀ s f) (hx : Grows c s x s middle)
    (hk : forall a g s', Since c.base s₀ s' (f ++ g) -> middle a g s' ->
      Grows c s₀ (k a) s' post) :
    Grows c s₀ (x >>= k) s post :=
  insideOnward h hx fun a g s' _ => hk a g s'

/-- A reading at the end of a rule, before which no node has been read. -/
theorem alone {x : Reader α} (h : Since c.base s₀ s .nil) (hx : Grows c s x s post) :
    Grows c s₀ x s post := by
  apply (beside h hx).mono
  rintro a _ s' _ ⟨g, rfl, hpost⟩
  exact hpost

theorem position {k : Nat → Reader α} (hk : Grows c s₀ (k s.position) s post) :
    Grows c s₀ (Grammar.position >>= k) s post := by
  unfold Grows
  rw [bind_position]
  exact hk

theorem peek {c' : Context} {k : Token → Reader α} (hk : Grows c s₀ (k (c'.next s)) s post) :
    Grows c s₀ (Grammar.peek c' >>= k) s post := by
  unfold Grows
  rw [bind_peek]
  exact hk

theorem peekKind {c' : Context} {k : TokenKind → Reader α}
    (hk : Grows c s₀ (k (c'.next s).kind) s post) :
    Grows c s₀ (Grammar.peekKind c' >>= k) s post := by
  unfold Grows
  rw [bind_peekKind]
  exact hk

theorem advance {k : Unit → Reader α} (h : Since c.base s₀ s f)
    (hquiet : (c.next s).kind.isOperand = false)
    (hk : Since c.base s₀ (s.moved c) f -> Grows c s₀ (k ()) (s.moved c) post) :
    Grows c s₀ (Grammar.advance c >>= k) s post := by
  unfold Grows
  rw [bind_advance]
  exact hk (h.moved hquiet)

theorem accept {kind : TokenKind} {k : Bool → Reader α} (h : Since c.base s₀ s f)
    (hquiet : kind.isOperand = false)
    (htrue : (c.next s).kind = kind -> Since c.base s₀ (s.moved c) f ->
      Grows c s₀ (k true) (s.moved c) post)
    (hfalse : (c.next s).kind ≠ kind -> Grows c s₀ (k false) s post) :
    Grows c s₀ (Grammar.accept c kind >>= k) s post := by
  by_cases heq : (c.next s).kind = kind
  · have hmoved : Since c.base s₀ (s.moved c) f := by
      apply h.moved
      rw [heq]
      exact hquiet
    have hbranch := htrue heq hmoved
    unfold Grows at hbranch ⊢
    rw [bind_accept, if_pos heq]
    exact hbranch
  · have hbranch := hfalse heq
    unfold Grows at hbranch ⊢
    rw [bind_accept, if_neg heq]
    exact hbranch

theorem expectOnward {mark : Punctuator} {what : Expectation} {k : Unit → Reader α}
    (h : Since c.base s₀ s f)
    (hk : forall s', s.position < s'.position -> Since c.base s₀ s' f ->
      Grows c s₀ (k ()) s' post) :
    Grows c s₀ (Grammar.expect c mark what >>= k) s post := by
  unfold Grammar.expect
  rw [bind_assoc]
  apply accept h rfl
  · intro hmark hmoved
    have hposition : (s.moved c).position = s.position + 1 :=
      moved_position (c := c) h.ended (by rw [hmark]; exact nofun)
    exact hk _ (by omega) hmoved
  · intro _
    exact h.kept

theorem expect {mark : Punctuator} {what : Expectation} {k : Unit → Reader α}
    (h : Since c.base s₀ s f)
    (hk : forall s', Since c.base s₀ s' f -> Grows c s₀ (k ()) s' post) :
    Grows c s₀ (Grammar.expect c mark what >>= k) s post :=
  expectOnward h fun s' _ => hk s'

theorem reports {level : Level} {message : String} {span : Span} {k : Unit → Reader α}
    (h : Since c.base s₀ s f)
    (hk : forall s', s'.position = s.position -> Since c.base s₀ s' f ->
      Grows c s₀ (k ()) s' post) :
    Grows c s₀ (report c level message span >>= k) s post := by
  unfold Grows
  rw [bind_of_ok (report_eq c level message span s)]
  cases c.options.report with
  | true => exact hk _ rfl (h.reported _)
  | false => exact hk s rfl h

theorem closedByEnd {what : Expectation} {k : Unit → Reader α} (h : Since c.base s₀ s f)
    (hk : forall s', s'.position = s.position -> Since c.base s₀ s' f ->
      Grows c s₀ (k ()) s' post) :
    Grows c s₀ (warnClosedByEnd c what >>= k) s post := by
  unfold warnClosedByEnd
  rw [bind_assoc]
  apply peek
  exact reports h hk

theorem closingOnward {mark : Punctuator} {what : Expectation} {k : Unit → Reader α}
    (h : Since c.base s₀ s f)
    (hk : forall s', s.position ≤ s'.position -> Since c.base s₀ s' f ->
      Grows c s₀ (k ()) s' post) :
    Grows c s₀ (expectClosing c mark what >>= k) s post := by
  unfold expectClosing
  rw [bind_assoc]
  apply peekKind
  split
  next => exact closedByEnd h fun s' hsame => hk s' (Nat.le_of_eq hsame.symm)
  next => exact expectOnward h fun s' hlt => hk s' (Nat.le_of_lt hlt)

theorem closing {mark : Punctuator} {what : Expectation} {k : Unit → Reader α}
    (h : Since c.base s₀ s f)
    (hk : forall s', Since c.base s₀ s' f -> Grows c s₀ (k ()) s' post) :
    Grows c s₀ (expectClosing c mark what >>= k) s post :=
  closingOnward h fun s' _ => hk s'

theorem endsOnward {what : Expectation} {k : Unit → Reader α} (h : Since c.base s₀ s f)
    (hk : forall s', s.position ≤ s'.position -> Since c.base s₀ s' f ->
      Grows c s₀ (k ()) s' post) :
    Grows c s₀ (endStatement c what >>= k) s post := by
  unfold endStatement
  rw [bind_assoc]
  apply peek
  split
  next hsemicolon =>
    apply advance h
    · rw [hsemicolon]
      rfl
    · exact hk _ (le_moved c s)
  next =>
    split
    next => exact hk s (Nat.le_refl _) h
    next => exact h.kept

theorem ends {what : Expectation} {k : Unit → Reader α} (h : Since c.base s₀ s f)
    (hk : forall s', Since c.base s₀ s' f -> Grows c s₀ (k ()) s' post) :
    Grows c s₀ (endStatement c what >>= k) s post :=
  endsOnward h fun s' _ => hk s'

/-- The options, the text and the tokens are the same one level deeper. -/
theorem nested {k : Context → Reader α} (h : Since c.base s₀ s f)
    (hk : Grows { c with depth := c.depth + 1 } s₀ (k { c with depth := c.depth + 1 }) s post) :
    Grows c s₀ (Grammar.nested c k) s post := by
  unfold Grammar.nested
  split
  next => exact .fail h _
  next => exact hk

/-- A node for all that the rule has read, even if there is nothing to adopt. -/
theorem addWide {node : Node} {post : NodeId → Forest → State → Prop} (h : Since c.base s₀ s f)
    (hchildren : node.children = f.roots) (hinner : node.isLeaf = false)
    (hwide : Wide c.edge s₀.position s.position) (hgroups : node.Groups f.rootNodes)
    (hfree : node.isConstruction = true -> f.callFree = true)
    (hpost : post s.tree.nextId (.tree s.tree.nextId node s₀.position s.position f)
      (s.added c s₀.position node)) :
    Grows c s₀ (addSince c s₀.position node) s post := by
  unfold Grows
  rw [addSince_eq]
  exact ⟨_, h.added hchildren hinner hwide hgroups hfree, hpost⟩

theorem add {node : Node} {post : NodeId → Forest → State → Prop} (h : Since c.base s₀ s f)
    (hchildren : node.children = f.roots) (hadopts : node.adopts = true)
    (hgroups : node.Groups f.rootNodes) (hfree : node.isConstruction = true -> f.callFree = true)
    (hpost : post s.tree.nextId (.tree s.tree.nextId node s₀.position s.position f)
      (s.added c s₀.position node)) :
    Grows c s₀ (addSince c s₀.position node) s post :=
  addWide h hchildren (Node.isLeaf_of_adopts hadopts) (h.wide_of_adopts hchildren hadopts) hgroups
    hfree hpost

theorem addWideThen {node : Node} {k : NodeId → Reader α} (h : Since c.base s₀ s f)
    (hchildren : node.children = f.roots) (hinner : node.isLeaf = false)
    (hwide : Wide c.edge s₀.position s.position) (hgroups : node.Groups f.rootNodes)
    (hfree : node.isConstruction = true -> f.callFree = true)
    (hk : forall s', s'.position = s.position -> forall id,
      Since c.base s₀ s' (.tree id node s₀.position s.position f) ->
      Grows c s₀ (k id) s' post) :
    Grows c s₀ (addSince c s₀.position node >>= k) s post := by
  unfold Grows
  rw [bind_of_ok (addSince_eq c s₀.position node s)]
  exact hk (s.added c s₀.position node) rfl _ (h.added hchildren hinner hwide hgroups hfree)

theorem addThen {node : Node} {k : NodeId → Reader α} (h : Since c.base s₀ s f)
    (hchildren : node.children = f.roots) (hadopts : node.adopts = true)
    (hgroups : node.Groups f.rootNodes) (hfree : node.isConstruction = true -> f.callFree = true)
    (hk : forall s', s'.position = s.position -> forall id,
      Since c.base s₀ s' (.tree id node s₀.position s.position f) ->
      Grows c s₀ (k id) s' post) :
    Grows c s₀ (addSince c s₀.position node >>= k) s post :=
  addWideThen h hchildren (Node.isLeaf_of_adopts hadopts) (h.wide_of_adopts hchildren hadopts)
    hgroups hfree hk

theorem token {node : Node} (ended : c.stream.Ended) (hholds : node.Holds (c.next s))
    (hquiet : (c.next s).kind ≠ .endOfText) :
    Grows c s (Grammar.advance c >>= fun _ => addSince c s.position node) s fun id g s' =>
      s'.position = s.position + 1 ∧ g = .tree id node s.position (s.position + 1) .nil := by
  have hmoved := moved_of_kind_ne ended hquiet
  unfold Grows
  rw [bind_advance, hmoved, addSince_eq]
  have hkept : Kept s.tree s.tree := Kept.refl s.tree
  have hover : LeafOver c.base node s.position (s.position + 1) := leafOver_of_holds hholds
  have hleaf := Since.leaf (s := { s with position := s.position + 1 }) ended hkept
    hholds.isLeaf (fun _ => rfl) (.inl (Nat.lt_succ_self _)) hover
  exact ⟨_, hleaf, rfl, rfl⟩

end Grows

end Grammar
end ScriptHints
