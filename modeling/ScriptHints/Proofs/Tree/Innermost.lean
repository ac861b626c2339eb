import ScriptHints.Proofs.Token.Placed
import ScriptHints.Proofs.Tree.Walks

/-!
# The innermost node at a position

The span of a node reaches from its first to its last token. So the spans of the nodes below
it lie inside of it, and the spans of nodes side by side have no position in common. Only
nodes at the end of the text may be made from no token at all; they have the span of the
token for the end of the text, and at all other positions going inwards finds the innermost
node.
-/

namespace ScriptHints

namespace Syntax

def SyntaxTree.SpanContains (t : SyntaxTree) (line column : Nat) (id : NodeId) : Prop :=
  exists span, t.span id = .ok span ∧ span.contains line column = true

theorem SyntaxTree.findCovering_cons {t : SyntaxTree} {line column : Nat} {id : NodeId}
    {entry : Entry} (h : t.get? id = some entry) (ids : List NodeId) :
    t.findCovering line column (id :: ids) =
      if entry.span.contains line column then .ok (some id)
      else t.findCovering line column ids := by
  rw [findCovering, span_of_get? h]

theorem SyntaxTree.innermostWithin_succ {t : SyntaxTree} {id : NodeId} {entry : Entry}
    (h : t.get? id = some entry) (line column b : Nat) :
    t.innermostWithin line column (b + 1) id =
      match t.findCovering line column entry.node.children with
      | .error fault => .error fault
      | .ok none => .ok id
      | .ok (some child) => t.innermostWithin line column b child := by
  cases hfound : t.findCovering line column entry.node.children with
  | error fault => simp only [innermostWithin, children_of_get? h, hfound]
  | ok found => cases found <;> simp only [innermostWithin, children_of_get? h, hfound]

theorem SyntaxTree.nodeAt_of_root {t : SyntaxTree} {root : NodeId} (h : t.root = some root)
    (line column : Nat) :
    t.nodeAt line column =
      match t.findCovering line column [root] with
      | .error fault => .error fault
      | .ok none => .ok none
      | .ok (some id) => (t.innermostWithin line column t.budget id).map some := by
  cases hfound : t.findCovering line column [root] with
  | error fault => simp only [nodeAt, h, hfound]
  | ok found => cases found <;> simp only [nodeAt, h, hfound]

/-- The nodes of a forest were made one behind the other from the tokens between two
positions, and the nodes below a node from its tokens. -/
def Forest.Spread (size : Nat) : Nat → Forest → Nat → Prop
  | _, .nil, _ => True
  | first, .node _ _ start behind below more, stop =>
      first ≤ start ∧ start ≤ behind ∧ behind ≤ stop ∧ Grammar.Wide size start behind ∧
        Spread size start below behind ∧ Spread size behind more stop

/-- Wherever a node stands in a forest, its tokens are some of the forest's ones. -/
theorem Forest.Spread.occurs {size first stop : Nat} {f : Forest} (h : f.Spread size first stop)
    {id : NodeId} {n : Node} {start behind : Nat} {below : Forest}
    (hoccurs : Occurs id n start behind below f) :
    first ≤ start ∧ start ≤ behind ∧ behind ≤ stop ∧ Grammar.Wide size start behind := by
  induction hoccurs generalizing first stop with
  | here more =>
      rcases h with ⟨hfirst, hwidth, hbehind, hwide, _, _⟩
      exact ⟨hfirst, hwidth, hbehind, hwide⟩
  | inside _ ih =>
      rcases h with ⟨hfirst, _, hbehind, _, hbelow, _⟩
      rcases ih hbelow with ⟨hfirst', hwidth, hbehind', hwide⟩
      exact ⟨hfirst.trans hfirst', hwidth, hbehind'.trans hbehind, hwide⟩
  | beside _ ih =>
      rcases h with ⟨hfirst, hwidth', _, _, _, hmore⟩
      rcases ih hmore with ⟨hfirst', hwidth, hbehind, hwide⟩
      exact ⟨hfirst.trans (hwidth'.trans hfirst'), hwidth, hbehind, hwide⟩

end Syntax

namespace Grammar

open Syntax Token

theorem Covers.spread {c : Context} {size first stop : Nat} {f : Forest} (h : Covers c first f stop)
    (hwide : AllWide size f) : f.Spread size first stop := by
  induction f generalizing first stop with
  | nil => trivial
  | node id n start behind below more ihBelow ihMore =>
      have hwidth := h.width_le
      rcases h with ⟨hquiet, hinside, hmore⟩
      rcases hwide with ⟨hwide, hwideBelow, hwideMore⟩
      refine ⟨hquiet.1, hwidth, hmore.le, hwide, ?_, ihMore hmore hwideMore⟩
      split at hinside
      next =>
        rw [hinside.2]
        trivial
      next => exact ihBelow hinside hwideBelow

/-!
## Spans of runs of tokens
-/

/-- The position lies between the first and the last of the tokens, which are not none. -/
structure Amid (stream : TokenStream) (line column first stop : Nat) : Prop where
  some : first < stop
  start : (Span.ofToken (stream.get first)).start ≤ toLex (line, column)
  finish : toLex (line, column) ≤ (Span.ofToken (stream.get (stop - 1))).finish

namespace Amid

variable {stream : TokenStream} (placed : stream.Placed) {line column first stop : Nat}
include placed

theorem around {start behind : Nat} (h : Amid stream line column start behind)
    (hfirst : first ≤ start) (hbehind : behind ≤ stop) (hstop : stop ≤ stream.size) :
    Amid stream line column first stop := by
  have hsome := h.some
  constructor
  · omega
  · exact (placed.start_le hfirst (by omega)).trans h.start
  · exact h.finish.trans (placed.finish_le (by omega) (by omega))

/-- Runs of tokens that stand one behind the other have no position in common. -/
theorem apart {first' stop' : Nat} (h : Amid stream line column first stop)
    (h' : Amid stream line column first' stop') (hbehind : stop ≤ first')
    (hstop : stop' ≤ stream.size) : False := by
  have hsome := h.some
  have hsome' := h'.some
  have hordered : (Span.ofToken (stream.get (stop - 1))).finish <
      (Span.ofToken (stream.get first')).start := placed.ordered (by omega) (by omega)
  exact absurd (h'.start.trans h.finish) (not_le_of_gt hordered)

end Amid

theorem contains_ofToken_stop {stream : TokenStream} (hempty : stream.stop.lexeme = "")
    {line column : Nat} (h : (Span.ofToken stream.stop).contains line column = true) :
    line = stream.stop.place.line ∧ column = stream.stop.place.column := by
  rw [Span.contains_iff] at h
  have hlength : stream.stop.lexeme.length = 0 := by
    rw [hempty]
    rfl
  simp only [Span.ofToken, hlength] at h
  omega

theorem contains_spanOf {c : Context} (placed : c.stream.Placed)
    (hempty : c.stream.stop.lexeme = "") {line column first stop : Nat}
    (hinside : c.stream.Inside line column)
    (hwide : Wide c.stream.size first stop) (hstop : stop ≤ c.stream.size) :
    (c.spanOf first stop).contains line column = true ↔ Amid c.stream line column first stop := by
  unfold Context.spanOf
  rcases hwide with hsome | hend
  · have hlast : max (stop - 1) first = stop - 1 := by omega
    rw [hlast]
    have hends : first ≤ stop - 1 := by omega
    rcases placed.union_ofToken hends (by omega) with ⟨hline, hstart, hfinish⟩
    rw [Span.contains_iff_between, hstart, hfinish]
    constructor
    · rintro ⟨_, hafter, hbefore⟩
      exact ⟨hsome, hafter, hbefore⟩
    · intro hamid
      exact ⟨hline, hamid.start, hamid.finish⟩
  · constructor
    · intro hcontains
      have hlast : max (stop - 1) first = first := by omega
      rw [hlast, c.stream.get_of_size_le hend] at hcontains
      rw [Span.union_self] at hcontains
      exact absurd (contains_ofToken_stop hempty hcontains) hinside
    · intro hamid
      have hsome := hamid.some
      omega

/-!
## Going inwards
-/

inductive Inwards (t : SyntaxTree) (line column b : Nat) (f : Forest) : Prop where
  | nowhere :
      t.findCovering line column f.roots = .ok none ->
      (forall id, id ∈ f.postOrder -> ¬ t.SpanContains line column id) ->
      Inwards t line column b f
  | at (root innermost : NodeId) :
      t.findCovering line column f.roots = .ok (some root) ->
      t.innermostWithin line column b root = .ok innermost ->
      root ∈ f.roots -> innermost ∈ f.postOrder -> t.Reaches root innermost ->
      t.SpanContains line column innermost ->
      (forall id, id ∈ f.postOrder -> t.SpanContains line column id -> t.Reaches id innermost) ->
      Inwards t line column b f

namespace Inwards

variable {t : SyntaxTree} {line column b : Nat} {id : NodeId} {n : Node} {start behind : Nat}
  {below more : Forest} {entry : Entry}

theorem mem_node_iff {id' : NodeId} :
    id' ∈ (Forest.node id n start behind below more).postOrder ↔
      id' ∈ below.postOrder ∨ id' = id ∨ id' ∈ more.postOrder := by
  rw [Forest.postOrder, List.mem_append, List.mem_cons]

theorem entered (hentry : t.get? id = some entry) (hchildren : entry.node.children = below.roots)
    (hcontains : t.SpanContains line column id) (hinner : Inwards t line column b below)
    (hbeside : forall id', id' ∈ more.postOrder -> ¬ t.SpanContains line column id') :
    Inwards t line column (b + 1) (.node id n start behind below more) := by
  have hspan : entry.span.contains line column = true := by
    rcases hcontains with ⟨span, hfound, hcontains⟩
    rw [SyntaxTree.span_of_get? hentry] at hfound
    cases hfound
    exact hcontains
  have hroot : t.findCovering line column (id :: more.roots) = .ok (some id) := by
    rw [SyntaxTree.findCovering_cons hentry, if_pos hspan]
  have hwalk := SyntaxTree.innermostWithin_succ hentry line column b
  rw [hchildren] at hwalk
  cases hinner with
  | nowhere hnone hfree =>
      -- Nothing below the node is at the position, so the walk ends here.
      rw [hnone] at hwalk
      refine .at id id hroot hwalk List.mem_cons_self (mem_node_iff.mpr (.inr (.inl rfl))) .refl
        hcontains ?_
      intro id' hid' hcontains'
      rcases mem_node_iff.mp hid' with hin | hsame | hin
      · exact absurd hcontains' (hfree id' hin)
      · rw [hsame]
        exact .refl
      · exact absurd hcontains' (hbeside id' hin)
  | «at» root innermost hsome hinner hmem hfound hreaches hholds hall =>
      rw [hsome] at hwalk
      have hchild : t.IsChild id root := by
        refine ⟨entry.node.children, SyntaxTree.children_of_get? hentry, ?_⟩
        rw [hchildren]
        exact hmem
      have hdown : t.Reaches id innermost := .head hchild hreaches
      refine .at id innermost hroot (hwalk.trans hinner) List.mem_cons_self
        (mem_node_iff.mpr (.inl hfound)) hdown hholds ?_
      intro id' hid' hcontains'
      rcases mem_node_iff.mp hid' with hin | hsame | hin
      · exact hall id' hin hcontains'
      · rw [hsame]
        exact hdown
      · exact absurd hcontains' (hbeside id' hin)

theorem passed (hentry : t.get? id = some entry) (hcontains : ¬ t.SpanContains line column id)
    (hbeside : Inwards t line column b more)
    (hbelow : forall id', id' ∈ below.postOrder -> ¬ t.SpanContains line column id') :
    Inwards t line column b (.node id n start behind below more) := by
  have hspan : ¬ entry.span.contains line column = true := by
    intro hspan
    exact hcontains ⟨entry.span, SyntaxTree.span_of_get? hentry, hspan⟩
  have hskip : t.findCovering line column (id :: more.roots) =
      t.findCovering line column more.roots := by
    rw [SyntaxTree.findCovering_cons hentry, if_neg hspan]
  cases hbeside with
  | nowhere hnone hfree =>
      refine .nowhere (hskip.trans hnone) ?_
      intro id' hid'
      rcases mem_node_iff.mp hid' with hin | hsame | hin
      · exact hbelow id' hin
      · rw [hsame]
        exact hcontains
      · exact hfree id' hin
  | «at» root innermost hsome hwalk hmem hfound hreaches hholds hall =>
      refine .at root innermost (hskip.trans hsome) hwalk (List.mem_cons_of_mem _ hmem)
        (mem_node_iff.mpr (.inr (.inr hfound))) hreaches hholds ?_
      intro id' hid' hcontains'
      rcases mem_node_iff.mp hid' with hin | hsame | hin
      · exact absurd hcontains' (hbelow id' hin)
      · rw [hsame] at hcontains'
        exact absurd hcontains' hcontains
      · exact hall id' hin hcontains'

end Inwards

section

variable {c : Context} (placed : c.stream.Placed) (hempty : c.stream.stop.lexeme = "")
  {line column : Nat} (hinside : c.stream.Inside line column) {t : SyntaxTree}
include placed hempty hinside

theorem spanContains_of_get? {id : NodeId} {entry : Entry} (hentry : t.get? id = some entry)
    {first stop : Nat} (hspan : entry.span = c.spanOf first stop)
    (hwide : Wide c.stream.size first stop) (hstop : stop ≤ c.stream.size) :
    t.SpanContains line column id ↔ Amid c.stream line column first stop := by
  rw [← contains_spanOf placed hempty hinside hwide hstop, ← hspan]
  constructor
  · rintro ⟨span, hfound, hcontains⟩
    rw [SyntaxTree.span_of_get? hentry] at hfound
    cases hfound
    exact hcontains
  · intro hcontains
    exact ⟨entry.span, SyntaxTree.span_of_get? hentry, hcontains⟩

/-- All nodes of a forest lie between the first and the last of its tokens. -/
theorem amid_of_mem {f : Forest} {parent : Option NodeId} (hin : f.In c.spanOf t parent)
    {first stop : Nat} (hspread : f.Spread c.stream.size first stop)
    (hstop : stop ≤ c.stream.size) {id : NodeId} (hid : id ∈ f.postOrder)
    (hcontains : t.SpanContains line column id) : Amid c.stream line column first stop := by
  induction f generalizing parent first stop with
  | nil => cases hid
  | node id' n start behind below more ihBelow ihMore =>
      rcases hin with ⟨hentry, _, hbelow, hmore⟩
      rcases hspread with ⟨hfirst, hwidth, hbehind, hwide, hspreadBelow, hspreadMore⟩
      have hbound := hbehind.trans hstop
      rcases List.mem_append.mp hid with hin | hin
      · exact (ihBelow hbelow hspreadBelow hbound hin).around placed hfirst hbehind hstop
      · rcases List.mem_cons.mp hin with hhere | hin
        · rw [hhere] at hcontains
          have hamid := (spanContains_of_get? placed hempty hinside hentry rfl hwide hbound).mp
            hcontains
          exact hamid.around placed hfirst hbehind hstop
        · exact (ihMore hmore hspreadMore hstop hin).around placed (hfirst.trans hwidth)
            (Nat.le_refl _) hstop

/-- Going inwards from the first root at the position leads to the innermost node; without
such a root there is no node at the position at all. -/
theorem inwards_of_spread {f : Forest} {parent : Option NodeId}
    (hin : f.In c.spanOf t parent) {first stop : Nat}
    (hspread : f.Spread c.stream.size first stop) (hstop : stop ≤ c.stream.size) (b : Nat)
    (hbudget : f.postOrder.length ≤ b) : Inwards t line column b f := by
  induction f generalizing parent first stop b with
  | nil => exact .nowhere rfl nofun
  | node id n start behind below more ihBelow ihMore =>
      rcases hin with ⟨hentry, hchildren, hbelow, hmore⟩
      rcases hspread with ⟨hfirst, hwidth, hbehind, hwide, hspreadBelow, hspreadMore⟩
      have hbound := hbehind.trans hstop
      have hhere := spanContains_of_get? placed hempty hinside hentry rfl hwide hbound
      have hlength : below.postOrder.length + (more.postOrder.length + 1) ≤ b := by
        rw [← List.length_cons, ← List.length_append]
        exact hbudget
      rcases (⟨b - 1, by omega⟩ : exists b', b = b' + 1) with ⟨b, rfl⟩
      have hinner := ihBelow hbelow hspreadBelow hbound b (by omega)
      have hmore' := ihMore hmore hspreadMore hstop (b + 1) (by omega)
      by_cases hcontains : t.SpanContains line column id
      · apply Inwards.entered hentry hchildren hcontains hinner
        intro id' hid' hcontains'
        have hamid' := amid_of_mem placed hempty hinside hmore hspreadMore hstop hid' hcontains'
        exact (hhere.mp hcontains).apart placed hamid' (Nat.le_refl _) hstop
      · apply Inwards.passed hentry hcontains hmore'
        -- A node below would be at the position only together with this node.
        intro id' hid' hcontains'
        apply hcontains
        exact hhere.mpr
          (amid_of_mem placed hempty hinside hbelow hspreadBelow hbound hid' hcontains')

end

/-!
## Ancestors
-/

theorem ancestorsWithin_ok {t : SyntaxTree} {id : NodeId} {b : Nat} {path : List NodeId}
    (h : t.ancestorsWithin b id = .ok path) :
    (t.parent id = .ok none ∧ path = [id]) ∨
      exists parent b' path', t.parent id = .ok (some parent) ∧
        t.ancestorsWithin b' parent = .ok path' ∧ path = id :: path' := by
  cases b with
  | zero => cases h
  | succ b =>
      unfold SyntaxTree.ancestorsWithin at h
      cases hparent : t.parent id with
      | error fault =>
          rw [hparent] at h
          cases h
      | ok parent =>
          rw [hparent] at h
          cases parent with
          | none =>
              cases h
              exact .inl ⟨rfl, rfl⟩
          | some parent =>
              right
              cases hrest : t.ancestorsWithin b parent with
              | error fault =>
                  simp only [hrest] at h
                  cases h
              | ok path' =>
                  simp only [hrest] at h
                  cases h
                  exact ⟨parent, b, path', rfl, hrest, rfl⟩

theorem mem_ancestors_of_reaches {spanOf : Nat → Nat → Span} {t : SyntaxTree} {f : Forest}
    {parent : Option NodeId} (hin : f.In spanOf t parent) {above id : NodeId}
    (habove : above ∈ f.postOrder) (hreaches : t.Reaches above id) {b : Nat} {path : List NodeId}
    (hpath : t.ancestorsWithin b id = .ok path) : above ∈ path := by
  induction hreaches generalizing b path with
  | refl =>
      rcases ancestorsWithin_ok hpath with ⟨_, rfl⟩ | ⟨_, _, _, _, _, rfl⟩
      · exact List.mem_cons_self
      · exact List.mem_cons_self
  | tail hreaches hchild ih =>
      have hparent := (hin.mem_of_isChild (hin.mem_of_reaches habove hreaches) hchild).2
      rcases ancestorsWithin_ok hpath with ⟨hnone, _⟩ | ⟨parent', _, path', hsome, hrest, rfl⟩
      · rw [hparent] at hnone
        cases hnone
      · rw [hparent] at hsome
        cases hsome
        exact List.mem_cons_of_mem _ (ih hrest)

/-!
## Parsed texts
-/

/--
Away from the end of the text a node is found at a position if and only if some node that the
root reaches contains it. The node that is found contains the position, and all nodes that
contain it are this node and ancestors of it.
-/
theorem nodeAt_innermost (text : String) (o : Options) (tree : SyntaxTree) (stream : TokenStream)
    (line column : Nat) (hparse : Parses text o tree) (htokens : tokensOf text = .ok stream)
    (hinside : ¬ (line = stream.stop.place.line ∧ column = stream.stop.place.column)) :
    exists root found, tree.root = some root ∧ tree.nodeAt line column = .ok found ∧
      (found.isSome = true ↔
        exists id, tree.Reaches root id ∧ tree.SpanContains line column id) ∧
      forall n, found = some n ->
        tree.Reaches root n ∧ tree.SpanContains line column n ∧
          exists path, tree.ancestors n = .ok path ∧
            forall id, tree.Reaches root id -> tree.SpanContains line column id -> id ∈ path := by
  rcases whole_of_parses hparse with ⟨stream', root, f, htokens', hwhole⟩
  rw [htokens] at htokens'
  cases htokens'
  have hempty := (tokensOf_lossless htokens).stop.2.1
  have hspread := hwhole.covers.spread (hwhole.wide.mono (Context.size_le_edge _))
  have hinwards := inwards_of_spread (c := scriptContext text stream o) (placed_tokensOf htokens)
    hempty hinside hwhole.entries hspread (Nat.le_refl _) tree.budget hwhole.length_le_budget
  have hnode := SyntaxTree.nodeAt_of_root hwhole.top line column
  have hroots := hwhole.roots
  cases hinwards with
  | nowhere hnone hfree =>
      rw [hroots] at hnone
      refine ⟨root, none, hwhole.top, by rw [hnode, hnone], ?_, nofun⟩
      constructor
      · exact nofun
      · rintro ⟨id, hreaches, hcontains⟩
        exact absurd hcontains (hfree id ((hwhole.mem_iff_reaches id).mpr hreaches))
  | «at» root' innermost hsome hwalk hmem hfound hreaches hholds hall =>
      rw [hroots] at hsome hmem
      rw [List.mem_singleton.mp hmem] at hsome hwalk hreaches
      refine ⟨root, some innermost,
        hwhole.top, by rw [hnode, hsome]; simp only [hwalk]; rfl, ?_, ?_⟩
      · exact ⟨fun _ => ⟨innermost, hreaches, hholds⟩, fun _ => rfl⟩
      · rintro n ⟨rfl⟩
        rcases hwhole.sound.ancestors_yields (hwhole.entries.index_lt hfound) with ⟨path, hpath, _⟩
        refine ⟨hreaches, hholds, path, hpath, ?_⟩
        intro id hid hcontains
        have hmem := (hwhole.mem_iff_reaches id).mpr hid
        exact mem_ancestors_of_reaches hwhole.entries hmem (hall id hmem hcontains) hpath

theorem nodeAt_innermost_strayParenthesis :
    tokensOf "a;)b" = .ok strayParenthesis ∧
      ¬ (1 = strayParenthesis.stop.place.line ∧ 3 = strayParenthesis.stop.place.column) ∧
      exists tree root found, Parses "a;)b" .lenient tree ∧ tree.root = some root ∧
        tree.nodeAt 1 3 = .ok found ∧
        (found.isSome = true ↔ exists id, tree.Reaches root id ∧ tree.SpanContains 1 3 id) ∧
        forall n, found = some n ->
          tree.Reaches root n ∧ tree.SpanContains 1 3 n ∧
            exists path, tree.ancestors n = .ok path ∧
              forall id, tree.Reaches root id -> tree.SpanContains 1 3 id -> id ∈ path := by
  have hinside : ¬ (1 = strayParenthesis.stop.place.line ∧
      3 = strayParenthesis.stop.place.column) := by
    decide
  rcases parses_strayParenthesis with ⟨tree, hparses⟩
  rcases nodeAt_innermost "a;)b" .lenient tree strayParenthesis 1 3 hparses
    tokensOf_strayParenthesis hinside with ⟨root, found, hroot, hfound, hiff, hinnermost⟩
  exact ⟨tokensOf_strayParenthesis, hinside, tree, root, found, hparses, hroot, hfound, hiff,
    hinnermost⟩

end Grammar
end ScriptHints
