import ScriptHints.Proofs.Parallel.Inserted
import ScriptHints.Proofs.Parallel.Joined
import ScriptHints.Proofs.Parallel.Layout
import ScriptHints.Proofs.Token.Terminated
import ScriptHints.Proofs.Tree.Parsed

/-!
# Semicolons in texts

Where a statement of a text ends without a semicolon, one can be put right behind its last token.
The text with it is read as the same tree. Nothing that follows the statement on its last line can
go on with it.
-/

namespace ScriptHints
namespace Grammar

open Syntax Token

theorem alike_of_unplaced {t t' : Token} (h : Unplaced.of t = Unplaced.of t') (k : Facts) :
    k.Alike t t' where
  kind := (congrArg Unplaced.kind h).symm
  lexeme := (congrArg Unplaced.lexeme h).symm
  newlineBefore _ := (congrArg Unplaced.newlineBefore h).symm

variable {p : Nat} {stream stream' : TokenStream}

theorem insertedAt_of_terminated (h : TokenStream.Terminated p stream stream')
    (hp : p < stream'.size) (hlast : (stream'.get p).kind ≠ .punctuator .semicolon) :
    InsertedAt (p + 1) stream stream' where
  pos := Nat.succ_pos p
  le := hp
  size := h.size_eq hp
  before _ hi := alike_of_unplaced (h.get_before hp (Nat.le_of_lt_succ hi)) .read
  mark := h.kind_mark hp
  behind _ hi := alike_of_unplaced (h.get_behind hp hi) .read
  last := hlast

/-!
## Scripts with another semicolon
-/

theorem position_of_scriptReading {text : String} (ended : stream.Ended) {o : Options}
    {ids : List NodeId} {s : State} (hread : scriptReading text stream o = .ok ids s) :
    s.position = stream.size := by
  have ended : (scriptContext text stream o).stream.Ended := ended
  have hgrows := (growing_grammar (scriptContext text stream o).budget).fresh
    (.statements .none) rfl
    (scriptContext text stream o) rfl ended State.start
  have hsteps := (steady_grammar ended (scriptContext text stream o).budget (.statements .none)
    (scriptContext text stream o) State.start rfl (Nat.zero_le _)).1
  have hread : grammar (scriptContext text stream o).budget (.statements .none)
      (scriptContext text stream o) State.start = .ok ids s := hread
  unfold Grows at hgrows
  rw [hread] at hgrows hsteps
  rcases hgrows with ⟨f, _, hreached⟩
  exact position_eq_size ended (hreached.stops.resolve_right nofun) hsteps.bounded

/-- The statements that may end without a semicolon end with some token. -/
theorem endsAt_of_scriptReading {text : String} (ended : stream.Ended) (placed : stream.Placed)
    {ids : List NodeId} {s : State} (hread : scriptReading text stream .strict = .ok ids s) :
    StatementsAre (fun span => exists p, EndsAt stream p span) s.tree :=
  keepsStatements_grammar ended (fineFrom_endsAt placed) (scriptContext text stream .strict).budget
    (.statements .none) 0 (scriptContext text stream .strict) State.start ids s ⟨rfl, rfl⟩
    (Nat.zero_le _) (Nat.zero_le _) hread .empty

/-- The reading of a script without the semicolon is behind it where a statement has ended, and
it is the one with the semicolon. -/
theorem amended_script {q : Nat} (text text' : String) (hinserted : InsertedAt q stream stream')
    (ended : stream'.Ended) (placed : stream'.Placed) {ids : List NodeId} {s' : State}
    (hread : scriptReading text' stream' .strict = .ok ids s') {id : NodeId} {entry : Entry}
    (hentry : s'.tree.get? id = some entry) (htakes : entry.node.takesSemicolon = true)
    (hends : entry.span.finish = (Span.ofToken (stream'.get (q - 1))).finish) :
    exists ids₁ s, scriptReading text stream .strict = .ok ids₁ s ∧
      ids = ids₁.map (Offset.id ⟨0, 0⟩) ∧
      s.tree.Displaced ⟨0, 0⟩ looselike.spans State.start.tree s'.tree ∧
      Grants (stream'.get q) ∧ (q < s'.position -> (stream'.get q).kind.isSlash = false) := by
  have hle : (scriptContext text' stream' .strict).budget ≤
      (scriptContext text stream .strict).budget := by
    show rulesPerToken * (stream'.size + 2) ≤ rulesPerToken * (stream.size + 2)
    rw [hinserted.size]
    exact Nat.mul_le_mul_left _ (by omega)
  have hlink : Amends q stream stream' (scriptContext text stream .strict)
      (scriptContext text' stream' .strict) := ⟨hinserted, rfl, rfl, ⟨rfl, rfl⟩, rfl, rfl⟩
  have hs : Amended q stream' (State.start.position = State.start.position + 1)
      State.start.position .start State.start State.start :=
    ⟨SyntaxTree.displaced_empty rfl, .inl ⟨rfl, Nat.zero_le _, .empty⟩⟩
  have hnone : ¬ StatementsAre (EndsElsewhere (stream'.get (q - 1))) s'.tree :=
    fun hnone => hnone id entry hentry htakes hends
  rcases amends_grammar hinserted ended placed hle (.statements .none) 0
    (scriptContext text stream .strict)
    (scriptContext text' stream' .strict) State.start State.start
    hlink (Nat.zero_le _) hs (fun h => by cases h) ids s' hread with
    ⟨ids₁, s, hread₁, hids, hamended⟩ | hmissed
  · rcases hamended.side with hbefore | hbehind
    · exact absurd hbefore.none hnone
    · exact ⟨ids₁, s, hread₁, hids, hamended.tree, hbehind.grants, hbehind.noSlash⟩
  · exact absurd hmissed.none hnone

/-- The tree of a script has the nodes that have been read, with their spans. -/
theorem entry_of_script {c : Context} {ids : List NodeId} {s : State} {id : NodeId} {entry : Entry}
    (h : ((s.added c 0 (.script ids)).tree.withRoot s.tree.nextId).get? id = some entry)
    (htakes : entry.node.takesSemicolon = true) :
    exists entry', s.tree.get? id = some entry' ∧ entry'.node = entry.node ∧
      entry'.span = entry.span := by
  have h : (s.tree.add (.script ids) (c.spanOf 0 s.position)).get? id = some entry := h
  rw [SyntaxTree.get?_add] at h
  split at h
  next =>
    cases h
    cases htakes
  next =>
    rcases Option.map_eq_some_iff.mp h with ⟨entry', hentry', rfl⟩
    exact ⟨entry', hentry', (Entry.adoptedBy_node _ _ _ _).symm,
      (Entry.adoptedBy_span _ _ _ _).symm⟩

/-- Scripts with the same statements are the same but for the places of their nodes. -/
theorem unplaced_of_displaced {old : SyntaxTree} {s s' : State}
    (h : s.tree.Displaced ⟨0, 0⟩ looselike.spans old s'.tree) (c c' : Context) (ids : List NodeId) :
    ((s.added c 0 (.script ids)).tree.withRoot s.tree.nextId).unplaced =
      ((s'.added c' 0 (.script (ids.map (Offset.id ⟨0, 0⟩)))).tree.withRoot
        s'.tree.nextId).unplaced := by
  have hscript : (s.added c 0 (.script ids)).tree.Displaced ⟨0, 0⟩ looselike.spans old
      (s'.added c' 0 ((Node.script ids).map (Offset.id ⟨0, 0⟩))).tree := h.add (.script ids) trivial
  have hroot : s'.tree.nextId = s.tree.nextId := by
    rw [h.nextId]
    simp [Offset.id]
  exact ((hscript.withRoot _ _).unplaced_eq rfl (congrArg some hroot)).symm

/-- A semicolon that is put right behind a statement that has ended without one changes nothing,
and only a brace, the end of the text or another line can follow such a statement. -/
theorem parseScript_terminated {text : String} {tree : SyntaxTree} {ds : Diagnostics}
    (hparse : parseScript text .strict = .ok (tree, ds)) {id : NodeId} {entry : Entry}
    (hentry : tree.get? id = some entry) (htakes : entry.node.takesSemicolon = true) :
    exists stream p, tokensOf text = .ok stream ∧ EndsAt stream p entry.span ∧
      ((stream.get p).kind ≠ .punctuator .semicolon ->
        (exists tree' ds', parseScript (terminated text (stream.get p).stopOffset) .strict =
            .ok (tree', ds') ∧ tree'.unplaced = tree.unplaced) ∧
          Grants (stream.get (p + 1))) := by
  cases htokens : tokensOf text with
  | error e =>
      rw [parseScript_of_lexical htokens] at hparse
      cases hparse
  | ok stream' =>
      have ended := ended_tokensOf htokens
      have placed := placed_tokensOf htokens
      rcases exists_scriptReading htokens hparse with ⟨ids, s', hread⟩
      rw [parseScript_of_tokens htokens, hread] at hparse
      cases hparse
      rcases entry_of_script hentry htakes with ⟨entry', hentry', hnode, hspan⟩
      rw [← hnode] at htakes
      rw [← hspan]
      rcases endsAt_of_scriptReading ended placed hread id entry' hentry' htakes with ⟨p, hp, hends⟩
      refine ⟨stream', p, rfl, ⟨hp, hends⟩, fun hlast => ?_⟩
      -- The tokens with a semicolon show what can follow, and so that no slash does.
      rcases amended_script text text (insertedAt_of_terminated
        (TokenStream.terminated_terminate hp) hp hlast) ended placed hread hentry' htakes hends with
        ⟨_, _, _, _, _, hgrants, hslash⟩
      have hposition := position_of_scriptReading ended hread
      have hnext : (stream'.get (p + 1)).kind.isSlash = false := by
        rcases Nat.lt_or_ge (p + 1) stream'.size with hlt | hge
        · exact hslash (by rw [hposition]; exact hlt)
        · rw [(ended.kind_get_eq_iff (p + 1)).mpr hge]
          rfl
      rcases tokensOf_terminated htokens hp hnext with ⟨stream, htokens₁, hterminated⟩
      rcases amended_script (terminated text (stream'.get p).stopOffset) text
        (insertedAt_of_terminated hterminated hp hlast) ended placed hread hentry' htakes hends with
        ⟨ids₁, s, hread₁, rfl, hdisplaced, _, _⟩
      refine ⟨⟨_, _, (parseScript_of_tokens htokens₁ .strict).trans (by rw [hread₁]; rfl), ?_⟩,
        hgrants⟩
      exact unplaced_of_displaced hdisplaced _ _ ids₁

def twoLines : SyntaxTree :=
  { entries := #[⟨.identifier "a", ⟨1, 1, 1, 1⟩, some ⟨1⟩⟩,
      ⟨.expressionStatement ⟨0⟩, ⟨1, 1, 1, 1⟩, some ⟨4⟩⟩,
      ⟨.identifier "b", ⟨2, 1, 2, 1⟩, some ⟨3⟩⟩,
      ⟨.expressionStatement ⟨2⟩, ⟨2, 1, 2, 1⟩, some ⟨4⟩⟩,
      ⟨.script [⟨1⟩, ⟨3⟩], ⟨1, 1, 2, 1⟩, none⟩]
    root := some ⟨4⟩ }

theorem parseScript_twoLines : parseScript "a\nb" .strict = .ok (twoLines, .empty) := by
  cbv

theorem parseScript_terminated_twoLines :
    exists stream p, tokensOf "a\nb" = .ok stream ∧ EndsAt stream p ⟨1, 1, 1, 1⟩ ∧
      ((stream.get p).kind ≠ .punctuator .semicolon ->
        (exists tree' ds', parseScript (terminated "a\nb" (stream.get p).stopOffset) .strict =
            .ok (tree', ds') ∧ tree'.unplaced = twoLines.unplaced) ∧
          Grants (stream.get (p + 1))) :=
  parseScript_terminated parseScript_twoLines (show twoLines.get? ⟨1⟩ =
    some ⟨.expressionStatement ⟨0⟩, ⟨1, 1, 1, 1⟩, some ⟨4⟩⟩ from rfl) rfl

end Grammar
end ScriptHints
