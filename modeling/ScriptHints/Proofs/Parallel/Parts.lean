import ScriptHints.Proofs.Parallel.Follows
import ScriptHints.Proofs.Parallel.Loops

/-!
# Parts of the tokens

A part of the tokens is read as a text of its own. What a strict reading has read of the whole is
read again from the part. It is then a whole expression, whatever it was in the first reading:
an operand, a test or the front of an access.
-/

namespace ScriptHints
namespace Grammar

open Syntax Token

/-- A stream of the tokens from `first` up to `stop`. A line end in front of the first one does not
count. -/
structure PartOf (first stop : Nat) (part whole : TokenStream) : Prop where
  ended : part.Ended
  size : first + part.size = stop
  within : stop ≤ whole.size
  kind (p : Nat) : p < part.size -> (whole.get (first + p)).kind = (part.get p).kind
  lexeme (p : Nat) : p < part.size -> (whole.get (first + p)).lexeme = (part.get p).lexeme
  newlineBefore (p : Nat) : 0 < p -> p < part.size ->
    (whole.get (first + p)).newlineBefore = (part.get p).newlineBefore

def SameTokens (first : Nat) (part whole : TokenStream) (span span' : Span) : Prop :=
  exists (c c' : Context) (i j : Nat), c.stream = part ∧ c'.stream = whole ∧
    span = c.spanOf i j ∧ span' = c'.spanOf (first + i) (first + j)

theorem spanning_sameTokens (d : Offset) (part whole : TokenStream) :
    Spanning d part whole (SameTokens d.tokens part whole) :=
  fun c c' i j hc hc' => ⟨c, c', i, j, hc, hc', rfl, rfl⟩

structure Context.Alone (part : TokenStream) (depth : Nat) (c : Context) : Prop where
  stream : c.stream = part
  recover : c.options.recover = false
  allowIn : c.allowIn = true
  depth : c.depth = depth

theorem Context.Alone.deeper {part : TokenStream} {depth : Nat} {c : Context}
    (h : c.Alone part depth) : c.deeper.Alone part (depth + 1) :=
  ⟨h.stream, h.recover, h.allowIn, congrArg (· + 1) h.depth⟩

abbrev fullGrammar (stream : TokenStream) : Strategy :=
  grammar (rulesPerToken * (stream.size + 2))

theorem tied_fullGrammar {stream : TokenStream} (ended : stream.Ended) :
    (fullGrammar stream).Tied stream :=
  tied_grammar ended (Nat.le_refl _)

namespace PartOf

variable {d : Offset} {stop : Nat} {part whole : TokenStream} (h : PartOf d.tokens stop part whole)
include h

theorem tight {m : Nat} (hm : m ≤ part.size) : TightAt d m part whole := by
  rcases Nat.lt_or_eq_of_le hm with hlt | heq
  · exact .inr ⟨h.kind m hlt, h.lexeme m hlt, fun hpos => h.newlineBefore m hpos hlt⟩
  · exact .inl ((h.ended.kind_get_eq_iff m).mpr (Nat.le_of_eq heq.symm))

theorem cut {m : Nat} (hm : m ≤ part.size) : CutAt d m part whole where
  size := hm
  kind p hp := h.kind p (by omega)
  lexeme p hp := h.lexeme p (by omega)
  newlineBefore p hpos hp := h.newlineBefore p hpos (by omega)
  next := .inl (h.tight hm)

/-- A context of the part narrows one of the whole, up to an `in` at most that is no operator. -/
theorem narrows {m depth : Nat} (hm : m ≤ part.size) {c c' : Context} (hc : c.Alone part depth)
    (hc' : c'.Strict whole) (hdepth : depth ≤ c'.depth)
    (hin : m < part.size -> (part.get m).kind = .keyword .inWord -> c'.allowIn = true) :
    Narrows d m part whole c c' where
  cut := h.cut hm
  next := by
    intro hkind
    rcases Nat.lt_or_ge m part.size with hlt | hge
    · exact (hin hlt hkind).trans hc.allowIn.symm
    · rw [(h.ended.kind_get_eq_iff m).mpr hge] at hkind
      cases hkind
  strict := hc'
  recover := hc.recover
  depth := by
    rw [hc.depth]
    exact hdepth
  allowIn _ := hc.allowIn
  stream := hc.stream

theorem follows (ended : whole.Ended) {m : Nat} (hm : m ≤ part.size) (old : State) (budget : Nat) :
    Strategy.Follows d m part whole (SameTokens d.tokens part whole) old (fullGrammar part)
      (grammar budget) := by
  intro goal start' c c' s s' hc hbound hs hstart htight b s₁' hread hstop
  have honward := (keepsFacts_grammar d ended budget goal start' c' s' hc.strict hs.front_le hbound
    hs.nodes_le b s₁' hread).2.2
  have hposition := hs.position
  have hfollows := follows_grammar m (spanning_sameTokens d part whole) ended old
    (Nat.le_add_left budget (rulesPerToken * (part.size + 2))) goal start' c c' s s' hc
    hbound hs hstart
    htight b s₁' hread hstop
  have hstream : rulesPerToken * (part.size + 2) = c.budget := by
    unfold Context.budget
    rw [hc.stream]
  rw [hstream, grammar_budget_add c (by rw [hc.stream]; exact h.ended) budget goal s
    (by rw [hc.stream]; omega)] at hfollows
  unfold fullGrammar
  rw [hstream]
  exact hfollows

end PartOf

/-!
## Nodes that stand alone
-/

/-- The first tree is copied behind the offset into the second one, with the spans of the same
tokens. -/
def CopiedAt (d : Offset) (part whole : TokenStream) (t t' : SyntaxTree) : Prop :=
  forall i entry, t.get? i = some entry -> exists entry', t'.get? (d.id i) = some entry' ∧
    entry'.node = entry.node.map d.id ∧ SameTokens d.tokens part whole entry.span entry'.span

theorem CopiedAt.grown {d : Offset} {part whole : TokenStream} {t t' t'' : SyntaxTree}
    (h : CopiedAt d part whole t t') (hextends : t'.Extends t'') : CopiedAt d part whole t t'' := by
  intro i entry hentry
  rcases h i entry hentry with ⟨entry', hentry', hnode, hspan⟩
  rcases hextends.2 _ entry' hentry' with ⟨entry'', hentry'', hnode', hspan'⟩
  refine ⟨entry'', hentry'', hnode'.trans hnode, ?_⟩
  rw [hspan']
  exact hspan

/-- Some of the tokens, on their own, are read as the node. -/
def StandsAlone (whole : TokenStream) (tree : SyntaxTree) (id : NodeId) : Prop :=
  exists first stop, first < stop ∧ stop ≤ whole.size ∧ forall part c,
    PartOf first stop part whole -> c.Alone part 0 ->
      exists (d : Offset) (a : NodeId) (s : State), d.tokens = first ∧ id = d.id a ∧
        fullGrammar part .expression c .start = .ok a s ∧ s.position = part.size ∧
          CopiedAt d part whole s.tree tree

theorem StandsAlone.grown {whole : TokenStream} {t t' : SyntaxTree} {id : NodeId}
    (h : StandsAlone whole t id) (hextends : t.Extends t') : StandsAlone whole t' id := by
  rcases h with ⟨first, stop, hlt, hwithin, hreads⟩
  refine ⟨first, stop, hlt, hwithin, ?_⟩
  intro part c hpart hc
  rcases hreads part c hpart hc with ⟨d, a, s, hd, hid, hread, hposition, hcopied⟩
  exact ⟨d, a, s, hd, hid, hread, hposition, hcopied.grown hextends⟩

/-- A reading of the part that has come as far as the reading of the whole. -/
abbrev Keeping (s₀ : State) (part whole : TokenStream) (s s' : State) : Prop :=
  Continues s₀.offset (.loose (SameTokens s₀.position part whole)) s₀ s s'

theorem keeping_start (s₀ : State) (part whole : TokenStream) :
    Keeping s₀ part whole .start s₀ where
  position := rfl
  tree := SyntaxTree.displaced_empty rfl
  diagnostics hexact := hexact.elim

theorem Continues.copiedAt {s₀ s s' : State} {part whole : TokenStream}
    (h : Keeping s₀ part whole s s') : CopiedAt s₀.offset part whole s.tree s'.tree := by
  intro i entry hentry
  rcases h.tree.behind i entry hentry with ⟨entry', hentry', hdisplaced⟩
  exact ⟨entry', hentry', hdisplaced.node, hdisplaced.span⟩

/-!
## Readings of goals
-/

section

variable {whole : TokenStream} (ended : whole.Ended) {c' : Context} (hc' : c'.Strict whole)
  {s s' s₂' : State} {id : NodeId}

/-- A reading of the part that comes to the end of the whole's one has read the part. -/
theorem Continues.atEnd {part : TokenStream} (h : Keeping s' part whole s s₂')
    (hpart : PartOf s'.position s₂'.position part whole) : s.position = part.size := by
  have hposition : s₂'.position = s'.position + s.position := h.position
  have hsize := hpart.size
  omega

theorem PartOf.next_eq_end {part : TokenStream} {c : Context}
    (hpart : PartOf s'.position s₂'.position part whole) (hc : c.stream = part)
    (h : Keeping s' part whole s s₂') : (c.next s).kind = .endOfText := by
  unfold Context.next
  rw [hc]
  exact (hpart.ended.kind_get_eq_iff _).mpr (Nat.le_of_eq (h.atEnd hpart).symm)

theorem StandsAlone.of_reads (hmoved : s'.position < s₂'.position)
    (hbound : s₂'.position ≤ whole.size)
    (h : forall part c, PartOf s'.position s₂'.position part whole -> c.Alone part 0 ->
      exists a s, fullGrammar part .expression c .start = .ok a s ∧ id = s'.offset.id a ∧
        Keeping s' part whole s s₂') :
    StandsAlone whole s₂'.tree id := by
  refine ⟨s'.position, s₂'.position, hmoved, hbound, ?_⟩
  intro part c hpart hc
  rcases h part c hpart hc with ⟨a, s, hread, hid, hkeeps⟩
  exact ⟨s'.offset, a, s, rfl, hid, hread, hkeeps.atEnd hpart, hkeeps.copiedAt⟩

include ended hc'

/-- What the grammar has read of the whole it reads again from the part. -/
theorem Continues.rereads {s₀ : State} {part : TokenStream} {stop m depth budget : Nat}
    (hpart : PartOf s₀.position stop part whole) (hm : m ≤ part.size) {c : Context}
    (hc : c.Alone part depth) (hdepth : depth ≤ c'.depth)
    (hin : m < part.size -> (part.get m).kind = .keyword .inWord -> c'.allowIn = true)
    (hs : Keeping s₀ part whole s s') (hstop : s₂'.position = s₀.position + m) (goal : Goal)
    (htail : goal.isTail = false) (hopen : goal.isOpen = false) (hempty : goal.mayBeEmpty = false)
    (hbound : s'.position ≤ whole.size) {r : (goal.placed s₀.offset 0).Result}
    (hread : grammar budget (goal.placed s₀.offset 0) c' s' = .ok r s₂') :
    exists a s₂, fullGrammar part goal c s = .ok a s₂ ∧ r = goal.placedResult s₀.offset 0 a ∧
      Keeping s₀ part whole s₂ s₂' := by
  have hpart : PartOf s₀.offset.tokens stop part whole := hpart
  have hnarrows := hpart.narrows hm hc hc' hdepth hin
  rcases hpart.follows ended hm s₀ budget goal 0 c c' s s' hnarrows hbound hs
    (by rw [htail]; intro h; cases h)
    (fun _ => hpart.tight hm) r s₂' hread (Nat.le_of_eq hstop) with
    ⟨a, s₂, ha, hr, hs₂⟩ | hhalts
  · exact ⟨a, s₂, ha, hr, hs₂⟩
  · have hstop : s₂'.position = s₀.offset.tokens + m := hstop
    cases hhalts with
    | atIn _ _ hbefore _ => omega
    | atStop hclosed _ _ =>
        rw [Facts.after, hopen, hempty] at hclosed
        cases hclosed

theorem position_of_goal (goal : Goal) (hempty : goal.mayBeEmpty = false)
    (hbound : s'.position ≤ whole.size) {budget : Nat} {r : (goal.placed s'.offset 0).Result}
    (hread : grammar budget (goal.placed s'.offset 0) c' s' = .ok r s₂') :
    s'.position < s₂'.position ∧ s₂'.position ≤ whole.size := by
  have hheld := (keepsFacts_grammar s'.offset ended budget goal 0 c' s' hc' (Nat.le_refl _) hbound
    (Nat.le_refl _) r s₂' hread).2.1
  refine ⟨hheld.moved ?_, hheld.bounded⟩
  rw [Facts.after, hempty]
  rfl

variable (hbound : s'.position ≤ whole.size) {budget : Nat}
include hbound

/-- What a goal has been reached with stands alone if the part, read for the same goal, is an
expression. -/
theorem StandsAlone.of_goal (goal : Goal) (htail : goal.isTail = false)
    (hopen : goal.isOpen = false)
    (hempty : goal.mayBeEmpty = false) (inner : Context → Context) {depth : Nat}
    (hinner : forall part c, Context.Alone part 0 c -> (inner c).Alone part depth)
    (hdepth : depth ≤ c'.depth) {r : (goal.placed s'.offset 0).Result}
    (hread : grammar budget (goal.placed s'.offset 0) c' s' = .ok r s₂')
    (hlift : forall part c a s, part.Ended -> Context.Alone part 0 c -> s.position ≤ part.size ->
      (c.next s).kind = .endOfText -> fullGrammar part goal (inner c) .start = .ok a s ->
        exists b, fullGrammar part .expression c .start = .ok b s ∧
          (r = goal.placedResult s'.offset 0 a -> id = s'.offset.id b)) :
    StandsAlone whole s₂'.tree id := by
  rcases position_of_goal ended hc' goal hempty hbound hread with ⟨hmoved, hbound₂⟩
  refine .of_reads hmoved hbound₂ fun part c hpart hc => ?_
  rcases Continues.rereads ended hc' hpart (Nat.le_refl _) (hinner part c hc) hdepth
    (fun hlt => absurd hlt (Nat.lt_irrefl _))
    (keeping_start s' part whole) hpart.size.symm goal htail
    hopen hempty hbound hread with ⟨a, s, ha, hr, hkeeps⟩
  rcases hlift part c a s hpart.ended hc (Nat.le_of_eq (hkeeps.atEnd hpart))
    (hpart.next_eq_end hc.stream hkeeps) ha with ⟨b, hb, hid⟩
  exact ⟨b, s, hb, hid hr, hkeeps⟩

theorem standsAlone_expression (budget : Nat)
    (hread : grammar budget .expression c' s' = .ok id s₂') :
    StandsAlone whole s₂'.tree id :=
  .of_goal ended hc' hbound .expression rfl rfl rfl (fun c => c) (fun _ _ h => h)
    (Nat.zero_le _) hread fun _ _ a _ _ _ _ _ ha => ⟨a, ha, fun h => h⟩

theorem standsAlone_assignment (budget : Nat)
    (hread : grammar budget .assignment c' s' = .ok id s₂') :
    StandsAlone whole s₂'.tree id := by
  refine .of_goal ended hc' hbound .assignment rfl rfl rfl (fun c => c) (fun _ _ h => h)
    (Nat.zero_le _) hread fun part c a s hended hc hs hend ha => ⟨a, ?_, fun h => h⟩
  exact expression_of_assignment (tied_fullGrammar hended) hc.stream (Nat.zero_le _) hs hend ha

theorem standsAlone_unary (budget : Nat) (hread : grammar budget .unary c' s' = .ok id s₂') :
    StandsAlone whole s₂'.tree id := by
  refine .of_goal ended hc' hbound .unary rfl rfl rfl (fun c => c) (fun _ _ h => h)
    (Nat.zero_le _) hread fun part c a s hended hc hs hend ha => ⟨a, ?_, fun h => h⟩
  exact expression_of_unary (tied_fullGrammar hended) hc.stream (Nat.zero_le _) hs hend ha

end

end Grammar
end ScriptHints
