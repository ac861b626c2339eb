import ScriptHints.Proofs.Recovery.Unskipped
import ScriptHints.Proofs.Syntax.Indentation
import ScriptHints.Proofs.Token.Literals
import ScriptHints.Proofs.Token.SingleLine

/-!
# Nodes on their own and in their place

In a tree that was read without recovery no leaf has a line feed in its text: strings spell theirs
out, and no name, number or regular expression can have one. So a node on its own is printed as in
its place, but for the indentation.
-/

namespace ScriptHints

namespace Text

theorem notMem_escapeChar (quote c : Char) : '\n' ∉ escapeChar quote c := by
  unfold escapeChar
  split
  next => decide
  split
  next => decide
  split
  next => decide
  split
  next => decide
  split
  next hfeed _ _ _ => simp [Ne.symm hfeed]
  next hfeed _ _ _ => simp [Ne.symm hfeed]

end Text

open Text Token Syntax

theorem Token.Inline.notMem {text : List Char} (h : Inline text) : '\n' ∉ text := by
  intro hfeed
  exact absurd (h '\n' hfeed) (by decide)

namespace Grammar

/-!
## Leaves
-/

section

variable {text : String} {stream : TokenStream} (htokens : tokensOf text = .ok stream) {i : Nat}
include htokens

theorem singleLines_of_holds {n : Node} (hholds : n.Holds (stream.get i)) :
    Instruction.SingleLines n.instructions := by
  have hmem (hend : (stream.get i).kind ≠ .endOfText) : stream.get i ∈ stream.body.toList :=
    (ended_tokensOf htokens).mem_body hend
  have hlexeme {text : String} (h : '\n' ∉ text.toList) :
      Instruction.SingleLines [.put (.lexeme text)] :=
    Instruction.singleLines_put.mpr ⟨h, Instruction.singleLines_nil⟩
  cases n with
  | identifier name => exact hlexeme (isWord_of_holds htokens hholds).inline.notMem
  | number value raw =>
      rcases hholds with ⟨hkind, rfl⟩
      exact hlexeme (tokensOf_number_inline htokens (hmem (by simp [hkind])) hkind).notMem
  | string value quote =>
      rcases hholds with ⟨hkind, rfl⟩
      rcases tokensOf_string htokens (hmem (by simp [hkind])) hkind with
        ⟨quote, inside, _, hquote, hspelled, _⟩
      have hplain : '\n' ≠ quote := by
        rcases hquote with rfl | rfl <;> decide
      apply hlexeme
      rw [show quoteOf (stream.get i).lexeme = quote by rw [quoteOf, hspelled]; rfl]
      simp [hplain, notMem_escapeChar]
  | boolean value => cases value <;> exact hlexeme (by decide +kernel)
  | nullValue | thisValue => simp [Node.instructions]
  | regExp pattern flags =>
      have hmem := hmem (by simp [show _ = _ from hholds])
      rcases tokensOf_regExp htokens hmem hholds with ⟨_, hpattern, hflags⟩
      apply hlexeme
      simp [hpattern.notMem, hflags.notMem]
  | _ => exact hholds.elim

end

variable {text : String} {o : Options} {tree : SyntaxTree}

/-- Every node of a reading without recovery puts down texts without a line feed. -/
theorem singleLines_of_parses (h : Parses text o tree) (hstrict : o.recover = false) {id : NodeId}
    {n : Node} (hnode : tree.node id = .ok n) : Instruction.SingleLines n.instructions := by
  cases hleaf : n.isLeaf with
  | false => exact n.singleLines_instructions hleaf
  | true =>
      rcases whole_of_parses h with ⟨stream, _, _, htokens, _⟩
      have hread := unskipped_of_parses h hstrict id n hnode
      rcases fits_of_parses h htokens hnode with hfits | ⟨_, statements, rfl⟩
      · have hholds : exists i, n.Holds (stream.get i) := by
          cases n with
          | skipped => cases hread
          | _ => first | exact hfits.1 rfl | cases hleaf
        rcases hholds with ⟨i, hholds⟩
        exact singleLines_of_holds htokens hholds
      · cases hleaf

/-!
## Nodes in their place
-/

theorem fragments_of_parses (h : Parses text o tree) (hstrict : o.recover = false) {id : NodeId}
    {source : String} (hsource : tree.toSource id = .ok source) (depth : Nat) :
    (tree.fragments depth id).map Fragment.textOf = .ok (indented depth source) := by
  unfold SyntaxTree.toSource SyntaxTree.fragments at hsource
  cases hfs : tree.fragmentsWithin tree.budget 0 id with
  | error fault =>
      rw [hfs] at hsource
      cases hsource
  | ok fs =>
      rw [hfs] at hsource
      cases hsource
      have hlines (id : NodeId) (n : Node) (hnode : tree.node id = .ok n) :
          Instruction.SingleLines n.instructions :=
        singleLines_of_parses h hstrict hnode
      rcases SyntaxTree.indents_fragmentsWithin hlines tree.budget depth 0 id fs hfs with
        ⟨fs', hfs', hsame⟩
      rw [Nat.zero_add] at hfs'
      rw [SyntaxTree.fragments, hfs', ← hsame]
      rfl

/--
Without recovery a renderer appends for a node what the node is on its own, with the indentation of
the depth behind each line feed, and then it has that depth again. So what a node is on its own
is a part of what the root is, less the indentation.
-/
theorem parsed_rendering_in_place (text : String) (o : Options) (tree : SyntaxTree)
    (h : Parses text o tree) (hstrict : o.recover = false) :
    exists root whole, tree.root = some root ∧ tree.toSource root = .ok whole ∧
      forall id, tree.Reaches root id -> exists source, tree.toSource id = .ok source ∧
        (forall depth,
          (tree.fragments depth id).map Fragment.textOf = .ok (indented depth source) ∧
          Renderer.Appends tree depth [.node id] (indented depth source)) ∧
        exists before inside behind depth todo, whole = before ++ inside ++ behind ∧
          Renderer.Gets tree ⟨[.node root], "", 0⟩ ⟨.node id :: todo, before, depth⟩ ∧
          Renderer.Gets tree ⟨.node id :: todo, before, depth⟩ ⟨todo, before ++ inside, depth⟩ ∧
          Renderer.Gets tree ⟨todo, before ++ inside, depth⟩ ⟨[], whole, 0⟩ ∧
          inside = indented depth source ∧ source = unindented depth inside := by
  rcases whole_of_parses h with ⟨stream, root, f, _, hwhole⟩
  rcases hwhole.sound.toSource_faultless hwhole.root_lt with ⟨whole, hroot, _⟩
  refine ⟨root, whole, hwhole.top, hroot, ?_⟩
  intro id hreaches
  have hid := hwhole.entries.index_lt ((hwhole.mem_iff_reaches id).mpr hreaches)
  rcases hwhole.sound.toSource_faultless hid with ⟨source, hsource, _⟩
  have hprinted (depth : Nat) := fragments_of_parses h hstrict hsource depth
  have happends (depth : Nat) := Renderer.appends_of_fragments (hprinted depth)
  refine ⟨source, hsource, fun depth => ⟨hprinted depth, happends depth⟩, ?_⟩
  rcases Renderer.gets_reached hwhole.sound hreaches [] "" 0 with ⟨todo, before, depth, hgets⟩
  have hinside := happends depth todo before
  have hall := Renderer.appends_of_fragments hroot [] ""
  rw [String.empty_append] at hall
  -- the run for the root comes past the node, so it goes on from what is behind the node
  have hrest := Renderer.Gets.toEnd (hgets.trans hinside) hall rfl
  rcases hrest.output with ⟨behind, hwhole⟩
  exact ⟨before, indented depth source, behind, depth, todo, hwhole, hgets, hinside, hrest, rfl,
    (unindented_indented depth source).symm⟩

def blockTree : SyntaxTree :=
  { entries := #[⟨.identifier "a", ⟨1, 3, 1, 3⟩, some ⟨1⟩⟩,
      ⟨.expressionStatement ⟨0⟩, ⟨1, 3, 1, 4⟩, some ⟨2⟩⟩,
      ⟨.block [⟨1⟩], ⟨1, 2, 1, 5⟩, some ⟨3⟩⟩,
      ⟨.block [⟨2⟩], ⟨1, 1, 1, 6⟩, some ⟨4⟩⟩,
      ⟨.script [⟨3⟩], ⟨1, 1, 1, 6⟩, none⟩]
    root := some ⟨4⟩ }

theorem parseScript_block :
    parseScript "\x7b\x7ba;\x7d\x7d" .strict = .ok (blockTree, Diagnostics.empty) := by
  cbv

theorem parsed_rendering_in_place_block :
    exists whole, blockTree.toSource ⟨4⟩ = .ok whole ∧
      exists source, blockTree.toSource ⟨2⟩ = .ok source ∧
        source = "\x7b\n  a;\n\x7d" ∧
        (forall depth,
          (blockTree.fragments depth ⟨2⟩).map Fragment.textOf = .ok (indented depth source) ∧
          Renderer.Appends blockTree depth [.node ⟨2⟩] (indented depth source)) ∧
        exists before inside behind depth todo, whole = before ++ inside ++ behind ∧
          Renderer.Gets blockTree ⟨[.node ⟨4⟩], "", 0⟩ ⟨.node ⟨2⟩ :: todo, before, depth⟩ ∧
          Renderer.Gets blockTree ⟨.node ⟨2⟩ :: todo, before, depth⟩
            ⟨todo, before ++ inside, depth⟩ ∧
          Renderer.Gets blockTree ⟨todo, before ++ inside, depth⟩ ⟨[], whole, 0⟩ ∧
          inside = indented depth source ∧ source = unindented depth inside := by
  have hchild : blockTree.IsChild ⟨3⟩ ⟨2⟩ := ⟨[⟨2⟩], rfl, List.mem_singleton_self _⟩
  have hbelow : blockTree.IsChild ⟨4⟩ ⟨3⟩ := ⟨[⟨3⟩], rfl, List.mem_singleton_self _⟩
  rcases parsed_rendering_in_place "\x7b\x7ba;\x7d\x7d" .strict blockTree
    (.inl ⟨_, parseScript_block⟩) rfl with ⟨root, whole, hroot, hwhole, hplaces⟩
  cases hroot
  rcases hplaces ⟨2⟩ (.head hbelow (.head hchild .refl)) with ⟨source, hsource, hplace⟩
  have htext : blockTree.toSource ⟨2⟩ = .ok "\x7b\n  a;\n\x7d" := by
    cbv
  have hsame : source = "\x7b\n  a;\n\x7d" := by
    rw [hsource] at htext
    injection htext
  exact ⟨whole, hwhole, source, hsource, hsame, hplace⟩

end Grammar
end ScriptHints
