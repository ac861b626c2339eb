import ScriptHints.Proofs.Parallel.Extents
import ScriptHints.Proofs.Parallel.Subexpressions
import ScriptHints.Proofs.Token.Spaced
import ScriptHints.Proofs.Tree.Innermost

/-!
# Subexpressions as texts

In a text that is read strictly, the tokens of an expression make up a text of its own. It is read
as the same expression, with ids that are counted from the first node of it and spans that are
counted from its first token. Only a name behind a point and the key of a property are no operands,
and need not be read so.
-/

namespace ScriptHints

namespace Syntax

/-- The first tree is the second one from a node on downwards, with other ids, and with spans that
are counted from a line and a column. -/
structure SyntaxTree.IsSubtree (part tree : SyntaxTree) (d : Offset) (line column : Nat)
    (id : NodeId) : Prop where
  root : exists root, part.root = some root ∧ id = d.id root
  entry (i : NodeId) (entry : Entry) : part.get? i = some entry ->
    exists entry', tree.get? (d.id i) = some entry' ∧ entry'.node = entry.node.map d.id ∧
      entry'.span = entry.span.shifted line column
  parent (i above : NodeId) : part.parent i = .ok (some above) ->
    tree.parent (d.id i) = .ok (some (d.id above))
  reaches (other : NodeId) :
    tree.Reaches id other ↔ exists i, i.index < part.size ∧ other = d.id i

end Syntax

namespace Grammar

open Syntax Token

/-!
## Expressions of parsed texts
-/

/-- Every expression of a parsed text stands alone, unless it is a name only. -/
theorem standsAlone_of_parses {text : String} {o : Options} (hstrict : o.recover = false)
    {tree : SyntaxTree} (h : Parses text o tree) {stream : TokenStream}
    (htokens : tokensOf text = .ok stream) {id : NodeId} {entry : Entry}
    (hentry : tree.get? id = some entry) (hexpression : entry.node.isExpression = true) :
    StandsAlone stream tree id ∨ tree.IsNameOnly id := by
  have halone := readsStandalone_grammar (ended_tokensOf htokens)
    (scriptContext text stream o).budget
  have hc : (scriptContext text stream o).Strict stream := ⟨rfl, hstrict⟩
  rcases h with ⟨ds, hparse⟩ | hparse
  · rw [parseScript_of_tokens htokens] at hparse
    cases heq : scriptReading text stream o with
    | error e s =>
        rw [heq] at hparse
        cases hparse
    | ok ids s =>
        rw [heq] at hparse
        cases hparse
        have hstatements := halone.goals (.statements .none) (scriptContext text stream o) .start hc
          (Nat.zero_le _) rfl nofun ids s heq
        have hscript : AddsStandalone stream [] s.tree
            (s.added (scriptContext text stream o) 0 (.script ids)).tree :=
          .addPlain stream s.tree _ rfl
        exact (hstatements.2.trans hscript nofun).alone id entry hentry (Nat.zero_le _) hexpression
          nofun
  · rcases parseExpression_of_tokens htokens o hparse with ⟨root, s, rfl, hread⟩
    have hroot := (Parser.readExpression_ok_iff.mp hread).1
    have hread := halone.goals .expression (scriptContext text stream o) .start hc
      (Nat.zero_le _) rfl nofun root s hroot
    exact hread.2.alone id entry hentry (Nat.zero_le _) hexpression nofun

/-!
## Parts as texts
-/

/-- The tokens from `first` up to, but without, `stop`, in front of the same end. -/
theorem PartOf.between {stream : TokenStream} (ended : stream.Ended) {first stop : Nat}
    (hlt : first < stop) (hstop : stop ≤ stream.size) :
    PartOf first stop ⟨(stream.between first stop).toArray, stream.stop⟩ stream := by
  have hlength := TokenStream.length_between hlt hstop
  have hget (p : Nat) (hp : p < (stream.between first stop).length) :
      TokenStream.get ⟨(stream.between first stop).toArray, stream.stop⟩ p =
        stream.get (first + p) := by
    have hsome := TokenStream.getElem?_between hlt hstop (p := p) (by omega)
    simp [TokenStream.get, hsome]
  exact
    { ended :=
        ⟨fun t ht => ended.body t (List.mem_of_mem_drop (List.mem_of_mem_take ht)), ended.stop⟩
      size := by
        show first + (stream.between first stop).length = stop
        omega
      within := hstop
      kind := fun p hp => by rw [hget p hp]
      lexeme := fun p hp => by rw [hget p hp]
      newlineBefore := fun p _ hp => by rw [hget p hp] }

theorem PartOf.of_sliced {part whole : TokenStream} (ended : part.Ended) {first stop : Nat}
    (hstop : stop ≤ whole.size) (h : TokenStream.Sliced first stop part whole) :
    PartOf first stop part whole :=
  ⟨ended, h.size, hstop, h.kind, h.lexeme, h.newlineBefore⟩

theorem alone_scriptContext (text : String) (stream : TokenStream) {o : Options}
    (hstrict : o.recover = false) : (scriptContext text stream o).Alone stream 0 :=
  ⟨rfl, hstrict, rfl, rfl⟩

theorem parseExpression_of_reads {text : String} {stream : TokenStream}
    (h : tokensOf text = .ok stream) {o : Options} {a : NodeId} {s : State}
    (hread : fullGrammar stream .expression (scriptContext text stream o) .start = .ok a s)
    (hend : s.position = stream.size) : parseExpression text o = .ok (s.tree.withRoot a) := by
  have hread : grammar (scriptContext text stream o).budget .expression
    (scriptContext text stream o)
      State.start = .ok a s := hread
  have hkind : ((scriptContext text stream o).next s).kind = .endOfText :=
    ((ended_tokensOf h).kind_get_eq_iff s.position).mpr (Nat.le_of_eq hend.symm)
  have hwhole : Parser.readExpression (scriptContext text stream o) State.start = .ok a s :=
    Parser.readExpression_ok_iff.mpr ⟨hread, hkind⟩
  have hrun : (Parser.ofTokens text stream o).expression = _ := Parser.run_of_ok hwhole
  unfold parseExpression Parser.ofText
  rw [h]
  simp only [Except.map]
  rw [hrun]

/-!
## Trees that were read strictly
-/

section

variable {c : Context} {tree : SyntaxTree} {root : NodeId} {f : Forest} (h : Whole c tree root f)
  (hstrict : c.options.recover = false)
include h hstrict

theorem Whole.mem_iff_index_lt (id : NodeId) : id ∈ f.postOrder ↔ id.index < tree.size := by
  rw [h.whole hstrict, mem_idsBetween_iff]
  exact and_iff_right (Nat.zero_le _)

theorem Whole.reaches_iff_index_lt (id : NodeId) : tree.Reaches root id ↔ id.index < tree.size := by
  rw [← h.mem_iff_reaches, h.mem_iff_index_lt hstrict]

theorem Whole.parent_eq_iff (id above : NodeId) :
    tree.parent id = .ok (some above) ↔ tree.IsChild above id := by
  constructor
  · intro hparent
    have hid : id ∈ f.postOrder :=
      (h.mem_iff_index_lt hstrict id).mpr (SyntaxTree.index_lt_of_parent hparent)
    rcases h.entries.root_or_child hid with hroot | ⟨above', habove, hchild⟩
    · rw [h.entries.parent_of_mem_roots hroot] at hparent
      cases hparent
    · rw [(h.entries.mem_of_isChild habove hchild).2] at hparent
      cases hparent
      exact hchild
  · intro hchild
    have habove := (h.mem_iff_index_lt hstrict above).mpr (SyntaxTree.index_lt_of_isChild hchild)
    exact (h.entries.mem_of_isChild habove hchild).2

theorem Whole.span_of_get? (hsome : 0 < c.stream.size) {id : NodeId} {entry : Entry}
    (hentry : tree.get? id = some entry) :
    exists i j, i < j ∧ j ≤ c.stream.size ∧ entry.span = c.spanOf i j := by
  have hid := (h.mem_iff_index_lt hstrict id).mpr (SyntaxTree.index_lt_of_get? hentry)
  rcases Forest.exists_occurs hid with ⟨n, i, j, below, hoccurs⟩
  rcases h.entries.occurs hoccurs with ⟨⟨above, hfound⟩, _, _⟩
  rw [hentry] at hfound
  cases hfound
  rcases (h.covers.spread h.wide).occurs hoccurs with ⟨_, hwidth, hbound, hwide⟩
  refine ⟨i, j, ?_, hbound, rfl⟩
  rw [Context.edge_of_strict hstrict hsome] at hwide
  unfold Wide at hwide
  omega

end

/-!
## Slices
-/

theorem SameTokens.span_eq {first stop : Nat} {part whole : TokenStream}
    (h : TokenStream.Sliced first stop part whole) (hpart : part.Spaced) (hwhole : whole.Spaced)
    {i j : Nat} (hij : i < j) (hj : j ≤ part.size) {span' : Span}
    (hsame : SameTokens first part whole (part.spanOf i j) span') :
    span' = whole.spanOf (first + i) (first + j) := by
  rcases hsame with ⟨c, c', i', j', rfl, rfl, hspan, rfl⟩
  have hspan : c.stream.spanOf i' j' = c.stream.spanOf i j := hspan.symm
  rcases hpart.eq_of_spanOf_eq hij hj hspan with ⟨rfl, hlast⟩
  have hlast' : max (first + j' - 1) (first + i') = max (first + j - 1) (first + i') := by omega
  show Span.union _ _ = Span.union _ _
  rw [hlast']

namespace CopiedAt

variable {d : Offset} {part whole : TokenStream} {t t' : SyntaxTree}
    (h : CopiedAt d part whole t t')
include h

theorem isChild_iff {i : NodeId} (hi : i.index < t.size) (other : NodeId) :
    t'.IsChild (d.id i) other ↔ exists child, t.IsChild i child ∧ other = d.id child := by
  rcases SyntaxTree.exists_get?_of_index_lt hi with ⟨entry, hentry⟩
  rcases h i entry hentry with ⟨entry', hentry', hnode, _⟩
  have hchildren' := SyntaxTree.children_of_get? hentry'
  rw [hnode, Node.children_map] at hchildren'
  unfold SyntaxTree.IsChild
  simp [hchildren', SyntaxTree.children_of_get? hentry, eq_comm]

/-- A node reaches the copies of what it reaches in the first tree, and nothing else. -/
theorem reaches_iff {c : Context} {root : NodeId} {f : Forest} (hwhole : Whole c t root f)
    (hstrict : c.options.recover = false) (other : NodeId) :
    t'.Reaches (d.id root) other ↔ exists i, i.index < t.size ∧ other = d.id i := by
  constructor
  · intro hreaches
    induction hreaches with
    | refl => exact ⟨root, hwhole.root_lt, rfl⟩
    | tail _ hchild ih =>
        rcases ih with ⟨i, hi, rfl⟩
        rcases (h.isChild_iff hi _).mp hchild with ⟨child, hbelow, rfl⟩
        refine ⟨child, ?_, rfl⟩
        have hreached := (hwhole.reaches_iff_index_lt hstrict i).mpr hi
        exact (hwhole.reaches_iff_index_lt hstrict child).mp (.tail hreached hbelow)
  · rintro ⟨i, hi, rfl⟩
    have hstep (above child : NodeId) (hchild : t.IsChild above child) :
        t'.IsChild (d.id above) (d.id child) :=
      (h.isChild_iff (SyntaxTree.index_lt_of_isChild hchild) _).mpr ⟨child, hchild, rfl⟩
    exact Relation.ReflTransGen.lift d.id hstep _ _ ((hwhole.reaches_iff_index_lt hstrict i).mpr hi)

theorem parent_eq {c c' : Context} {root root' : NodeId} {f f' : Forest}
    (hwhole : Whole c t root f) (hwhole' : Whole c' t' root' f')
    (hstrict : c.options.recover = false)
    (hstrict' : c'.options.recover = false) {i above : NodeId}
    (hparent : t.parent i = .ok (some above)) : t'.parent (d.id i) = .ok (some (d.id above)) := by
  have hchild := (hwhole.parent_eq_iff hstrict i above).mp hparent
  rw [hwhole'.parent_eq_iff hstrict']
  exact (h.isChild_iff (SyntaxTree.index_lt_of_isChild hchild) _).mpr ⟨i, hchild, rfl⟩

end CopiedAt

/-- The text of the tokens from which an expression was read is read as the same expression. -/
theorem StandsAlone.exists_slice {text : String} {stream : TokenStream}
    (htokens : tokensOf text = .ok stream) {o : Options} (hstrict : o.recover = false)
    {tree : SyntaxTree} {top : NodeId} {f : Forest}
    (hwhole : Whole (scriptContext text stream o) tree top f) {id : NodeId} {entry : Entry}
    (hentry : tree.get? id = some entry) (h : StandsAlone stream tree id) :
    exists part subtree d, sliceWithin text stream entry.span = some part ∧
      parseExpression part o = .ok subtree ∧
      subtree.IsSubtree tree d entry.span.line entry.span.column id := by
  have ended := ended_tokensOf htokens
  have spaced := spaced_tokensOf htokens
  rcases h with ⟨first, stop, hlt, hstop, hreads⟩
  -- The first token is asked for of any text with these tokens, before their own text is read.
  have hslash : (stream.get first).kind.isSlash = false := by
    have hpart := PartOf.between ended hlt hstop
    rcases hreads _ _ hpart (alone_scriptContext "" _ hstrict) with ⟨_, _, _, _, _, hread, _, _⟩
    have hkind := kind_of_expression (tied_fullGrammar hpart.ended) rfl (Nat.zero_le _) hread
    have hsize := hpart.size
    exact (congrArg TokenKind.isSlash (hpart.kind 0 (by omega))).trans hkind
  rcases tokensOf_sliced htokens hlt hstop hslash with ⟨part, hpart, hsliced⟩
  have spaced' := spaced_tokensOf hpart
  have hsize := hsliced.size
  generalize htext : textBetween text.toList (stream.get first) (stream.get (stop - 1)) =
    slice at hpart
  rcases hreads part (scriptContext slice part o)
    (.of_sliced (ended_tokensOf hpart) hstop hsliced) (alone_scriptContext slice part hstrict) with
    ⟨d, root, s, rfl, rfl, hread, hposition, hcopied⟩
  have hparse := parseExpression_of_reads hpart hread hposition
  rcases whole_of_expression hpart o hparse with ⟨root', f', hwhole'⟩
  have htop : some root = some root' := hwhole'.top
  cases htop
  have hcopied : CopiedAt d part stream (s.tree.withRoot root) tree := hcopied
  have hspans (i : NodeId) (entry₁ : Entry)
      (hentry₁ : (s.tree.withRoot root).get? i = some entry₁) :
      exists entry', tree.get? (d.id i) = some entry' ∧ entry'.node = entry₁.node.map d.id ∧
        entry'.span = entry₁.span.shifted (stream.get d.tokens).place.line
          (stream.get d.tokens).place.column := by
    rcases hcopied i entry₁ hentry₁ with ⟨entry', hentry', hnode, hsame⟩
    rcases hwhole'.span_of_get? hstrict (by show 0 < part.size; omega) hentry₁ with
      ⟨j, k, hjk, hk, hspan⟩
    have hspan : entry₁.span = part.spanOf j k := hspan
    rw [hspan] at hsame
    rw [hspan, ← hsliced.spanOf_add spaced' spaced hjk hk]
    exact ⟨entry', hentry', hnode, hsame.span_eq hsliced spaced' spaced hjk hk⟩
  have hroot : entry.span = stream.spanOf d.tokens stop := by
    rcases extends_grammar _ |>.expression _ _ root s hread with ⟨entry₁, hentry₁, hspan⟩
    rcases hcopied root entry₁ hentry₁ with ⟨entry', hentry', _, hsame⟩
    rw [hentry] at hentry'
    cases hentry'
    have hspan : entry₁.span = part.spanOf 0 s.position := hspan
    rw [hspan, hposition] at hsame
    rw [hsame.span_eq hsliced spaced' spaced (by omega) (Nat.le_refl _), hsize, Nat.add_zero]
  have hstart := spaced.spanOf_eq hlt
  rw [← hroot] at hstart
  have hline : entry.span.line = (stream.get d.tokens).place.line := by rw [hstart]
  have hcolumn : entry.span.column = (stream.get d.tokens).place.column := by rw [hstart]
  refine ⟨slice, _, d, ?_, hparse, ?_⟩
  · rw [hroot, sliceWithin_spanOf text spaced hlt hstop, htext]
  · rw [hline, hcolumn]
    exact
      { root := ⟨root, rfl, rfl⟩
        entry := hspans
        parent := fun i above => hcopied.parent_eq hwhole' hwhole hstrict hstrict
        reaches := hcopied.reaches_iff hwhole' hstrict }

/--
In a text that is read strictly, every expression that is not the name behind a point and not
the key
of a property is read on its own as well: the text of the tokens in its span is an expression,
and its
tree is the subtree of the node.
-/
theorem parsed_subexpression (text : String) (o : Options) (hstrict : o.recover = false)
    (tree : SyntaxTree) (h : Parses text o tree) (id : NodeId) (entry : Entry)
    (hentry : tree.get? id = some entry) (hexpression : entry.node.isExpression = true)
    (hname : ¬ tree.IsNameOnly id) :
    exists stream part subtree d, tokensOf text = .ok stream ∧
      sliceWithin text stream entry.span = some part ∧ parseExpression part o = .ok subtree ∧
      subtree.IsSubtree tree d entry.span.line entry.span.column id := by
  rcases whole_of_parses h with ⟨stream, root, f, htokens, hwhole⟩
  have halone := (standsAlone_of_parses hstrict h htokens hentry hexpression).resolve_right hname
  rcases halone.exists_slice htokens hstrict hwhole hentry with ⟨part, subtree, d, hslice⟩
  exact ⟨stream, part, subtree, d, htokens, hslice⟩

theorem parsed_subexpression_target :
    exists entry, Options.strict.recover = false ∧
      Parses "new a.b(c)" .strict constructionTree ∧ constructionTree.get? ⟨2⟩ = some entry ∧
      entry.node.isExpression = true ∧ ¬ constructionTree.IsNameOnly ⟨2⟩ ∧
      exists stream part subtree d, tokensOf "new a.b(c)" = .ok stream ∧
        sliceWithin "new a.b(c)" stream entry.span = some part ∧
        parseExpression part .strict = .ok subtree ∧
        subtree.IsSubtree constructionTree d entry.span.line entry.span.column ⟨2⟩ := by
  have hname : ¬ constructionTree.IsNameOnly ⟨2⟩ := by
    rintro ⟨⟨parent⟩, entry, hentry, hname⟩
    have hlt : parent < 5 := SyntaxTree.index_lt_of_get? hentry
    interval_cases parent <;> cases hentry <;> cases hname
  refine ⟨⟨.propertyAccess ⟨0⟩ ⟨1⟩, ⟨1, 5, 1, 7⟩, some ⟨4⟩⟩, rfl, parses_construction,
    rfl, rfl, hname,
    ?_⟩
  exact parsed_subexpression "new a.b(c)" .strict rfl constructionTree parses_construction
    ⟨2⟩ _ rfl rfl
    hname

end Grammar
end ScriptHints
