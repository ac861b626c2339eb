import ScriptHints.Proofs.Reader.Progress
import ScriptHints.Proofs.Recovery.Script
import ScriptHints.Proofs.Tree.StatementsGrown

/-!
# Parsed trees

The tree of a parsed text is one tree of a forest that was grown from all of its tokens,
whether the text was read as a script or as an expression. Everything that is known about
grown forests is known about parsed trees by that.
-/

namespace ScriptHints
namespace Grammar

open Syntax Token

/-- The text is read as a script or as an expression, and this is its tree. -/
def Parses (text : String) (o : Options) (tree : SyntaxTree) : Prop :=
  (exists ds, parseScript text o = .ok (tree, ds)) ∨ parseExpression text o = .ok tree

/-- The reader of an expression gives what the grammar reads, if nothing is left behind it. -/
theorem Parser.readExpression_ok_iff {c : Context} {root : NodeId} {s s' : State} :
    Parser.readExpression c s = .ok root s' ↔
      grammar c.budget .expression c s = .ok root s' ∧ (c.next s').kind = .endOfText := by
  unfold Parser.readExpression
  constructor
  · intro h
    rcases bind_ok_iff.mp h with ⟨root', s₁, hroot, hrest⟩
    rw [bind_peekKind] at hrest
    split at hrest
    next hkind =>
      rcases pure_ok_iff.mp hrest with ⟨rfl, rfl⟩
      exact ⟨hroot, hkind⟩
    next => exact absurd hrest fail_ne_ok
  · rintro ⟨hroot, hkind⟩
    rw [bind_of_ok hroot, bind_peekKind, if_pos hkind]
    rfl

theorem parseExpression_of_tokens {text : String} {stream : TokenStream}
    (h : tokensOf text = .ok stream) (o : Options) {tree : SyntaxTree}
    (hparse : parseExpression text o = .ok tree) :
    exists root s, tree = s.tree.withRoot root ∧
      Parser.readExpression (scriptContext text stream o) State.start = .ok root s := by
  unfold parseExpression Parser.ofText at hparse
  rw [h] at hparse
  cases heq : Parser.readExpression (scriptContext text stream o) State.start with
  | ok root s =>
      have hrun : (Parser.ofTokens text stream o).expression = _ := Parser.run_of_ok heq
      simp only [Except.map] at hparse
      rw [hrun] at hparse
      cases hparse
      exact ⟨root, s, rfl, rfl⟩
  | error e s =>
      have hrun : (Parser.ofTokens text stream o).expression = _ := Parser.run_of_error heq
      simp only [Except.map] at hparse
      rw [hrun] at hparse
      cases hparse

structure Whole (c : Context) (tree : SyntaxTree) (root : NodeId) (f : Forest) : Prop where
  top : tree.root = some root
  roots : f.roots = [root]
  ended : c.stream.Ended
  entries : f.In c.spanOf tree none
  sound : tree.Sound
  filled : tree.Filled
  ordered : f.postOrder.Sublist (idsBetween 0 tree.size)
  whole : c.options.recover = false -> f.postOrder = idsBetween 0 tree.size
  covers : Covers c 0 f c.stream.size
  wide : AllWide c.edge f
  grouped : f.Grouped

theorem Whole.ofSince {c : Context} {s : State} {f : Forest} {root : NodeId}
    (h : Since c.base State.start s f) (hroots : f.roots = [root])
    (hend : s.position = c.stream.size) : Whole c.base (s.tree.withRoot root) root f where
  top := rfl
  roots := hroots
  ended := h.ended
  entries := h.entries.congr fun _ _ => rfl
  sound := (h.kept.sound SyntaxTree.sound_empty).withRoot root
  filled := (h.kept.filled SyntaxTree.filled_empty).withRoot root
  ordered := h.ordered
  whole := h.whole
  covers := by
    have hcovers := h.covers
    rw [hend] at hcovers
    exact hcovers
  wide := h.wide
  grouped := h.grouped

theorem Whole.root_lt {c : Context} {tree : SyntaxTree} {root : NodeId} {f : Forest}
    (h : Whole c tree root f) : root.index < tree.size := by
  have hroot : root ∈ f.roots := by
    rw [h.roots]
    exact List.mem_singleton_self root
  exact h.entries.index_lt (f.roots_sublist_postOrder.subset hroot)

theorem position_eq_size {c : Context} (ended : c.stream.Ended) {s : State}
    (hend : (c.next s).kind = .endOfText) (hbound : s.position ≤ c.stream.size) :
    s.position = c.stream.size :=
  Nat.le_antisymm hbound ((ended.kind_get_eq_iff s.position).mp hend)

theorem whole_of_script {text : String} {stream : TokenStream} (h : tokensOf text = .ok stream)
    (o : Options) {tree : SyntaxTree} {ds : Diagnostics}
    (hparse : parseScript text o = .ok (tree, ds)) :
    exists root f, Whole (scriptContext text stream o) tree root f := by
  have ended : (scriptContext text stream o).stream.Ended := ended_tokensOf h
  have hgrows := (growing_grammar (scriptContext text stream o).budget).fresh
    (.statements .none) rfl
    (scriptContext text stream o) rfl ended State.start
  have hsteps := (steady_grammar ended (scriptContext text stream o).budget (.statements .none)
    (scriptContext text stream o) State.start rfl (Nat.zero_le _)).1
  rw [parseScript_of_tokens h] at hparse
  unfold Grows at hgrows
  cases heq : scriptReading text stream o with
  | error e s =>
      rw [heq] at hparse
      cases hparse
  | ok ids s =>
      rw [heq] at hparse
      cases hparse
      have heq : grammar (scriptContext text stream o).budget (.statements .none)
          (scriptContext text stream o) State.start = .ok ids s := heq
      rw [heq] at hgrows hsteps
      rcases hgrows with ⟨f, hgrown, hreached⟩
      have hend := position_eq_size ended (hreached.stops.resolve_right nofun) hsteps.bounded
      have hwide : Wide (scriptContext text stream o).edge 0 s.position := by
        rw [hend]
        by_cases hempty : (scriptContext text stream o).stream.size = 0
        · right
          unfold Context.edge
          rw [if_pos (.inr hempty), hempty]
        · exact .inl (Nat.pos_of_ne_zero hempty)
      have hadded : Since (scriptContext text stream o).base State.start
          (s.added (scriptContext text stream o) 0 (.script ids)) _ :=
        hgrown.added hreached.rooted.roots.symm rfl hwide trivial nofun
      exact ⟨_, _, .ofSince hadded rfl hend⟩

theorem whole_of_expression {text : String} {stream : TokenStream} (h : tokensOf text = .ok stream)
    (o : Options) {tree : SyntaxTree} (hparse : parseExpression text o = .ok tree) :
    exists root f, Whole (scriptContext text stream o) tree root f := by
  have ended : (scriptContext text stream o).stream.Ended := ended_tokensOf h
  have hgrows := (growing_grammar (scriptContext text stream o).budget).fresh .expression rfl
    (scriptContext text stream o) rfl ended State.start
  have hsteps := (steady_grammar ended (scriptContext text stream o).budget .expression
    (scriptContext text stream o) State.start rfl (Nat.zero_le _)).1
  unfold Grows at hgrows
  rcases parseExpression_of_tokens h o hparse with ⟨root, s, rfl, hread⟩
  rcases Parser.readExpression_ok_iff.mp hread with ⟨heq, hkind⟩
  rw [heq] at hgrows hsteps
  rcases hgrows with ⟨f, hgrown, hreached⟩
  have hend := position_eq_size ended hkind hsteps.bounded
  exact ⟨root, f, .ofSince hgrown hreached.rooted.roots hend⟩

theorem whole_of_parses {text : String} {o : Options} {tree : SyntaxTree}
    (h : Parses text o tree) :
    exists stream root f, tokensOf text = .ok stream ∧
      Whole (scriptContext text stream o) tree root f := by
  cases htokens : tokensOf text with
  | error e =>
      rcases h with ⟨ds, hparse⟩ | hparse
      · rw [parseScript_of_lexical htokens] at hparse
        cases hparse
      · unfold parseExpression Parser.ofText at hparse
        rw [htokens] at hparse
        cases hparse
  | ok stream =>
      rcases h with ⟨ds, hparse⟩ | hparse
      · rcases whole_of_script htokens o hparse with ⟨root, f, hwhole⟩
        exact ⟨stream, root, f, rfl, hwhole⟩
      · rcases whole_of_expression htokens o hparse with ⟨root, f, hwhole⟩
        exact ⟨stream, root, f, rfl, hwhole⟩

/-!
## Two parsed texts
-/

def constructionTree : SyntaxTree :=
  { entries := #[⟨.identifier "a", ⟨1, 5, 1, 5⟩, some ⟨2⟩⟩,
      ⟨.identifier "b", ⟨1, 7, 1, 7⟩, some ⟨2⟩⟩,
      ⟨.propertyAccess ⟨0⟩ ⟨1⟩, ⟨1, 5, 1, 7⟩, some ⟨4⟩⟩,
      ⟨.identifier "c", ⟨1, 9, 1, 9⟩, some ⟨4⟩⟩,
      ⟨.construction ⟨2⟩ (some [⟨3⟩]), ⟨1, 1, 1, 10⟩, none⟩]
    root := some ⟨4⟩ }

theorem parseExpression_construction :
    parseExpression "new a.b(c)" .strict = .ok constructionTree := by
  cbv

theorem parses_construction : Parses "new a.b(c)" .strict constructionTree :=
  .inr parseExpression_construction

/-- The tokens of a statement, and of one behind it that cannot be read. -/
def strayParenthesis : TokenStream :=
  { body := #[⟨.identifier, "a", ⟨1, 1, 0⟩, false⟩, ⟨.punctuator .semicolon, ";", ⟨1, 2, 1⟩, false⟩,
      ⟨.punctuator .closeParen, ")", ⟨1, 3, 2⟩, false⟩, ⟨.identifier, "b", ⟨1, 4, 3⟩, false⟩]
    stop := ⟨.endOfText, "", ⟨1, 5, 4⟩, false⟩ }

theorem tokensOf_strayParenthesis : tokensOf "a;)b" = .ok strayParenthesis := by
  cbv

theorem parses_strayParenthesis : exists tree, Parses "a;)b" .lenient tree := by
  rcases recovering_script "a;)b" tokensOf_strayParenthesis false with ⟨tree, ds, _, _, hparse, _⟩
  exact ⟨tree, .inl ⟨ds, hparse⟩⟩

end Grammar
end ScriptHints
