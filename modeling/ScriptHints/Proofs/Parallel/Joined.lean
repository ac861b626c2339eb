import ScriptHints.Proofs.Parallel.Follows
import ScriptHints.Proofs.Parallel.Runs
import ScriptHints.Proofs.Recovery.Script
import ScriptHints.Proofs.Token.Joined
import ScriptHints.Proofs.Tree.Copied

/-!
# Scripts one behind the other

A script that can be read, and ends with a semicolon, is read in the same way where another text
follows. That text is read as it is read alone, whatever it is.
-/

namespace ScriptHints
namespace Grammar

open Syntax Token

/-!
## Lists of statements
-/

theorem map_eq_of_eq_map {α β γ : Type} {x : Reader α} {y : Reader β} {f : α → γ} {g : β → α}
    {s s₁ : State} (h : x s = (g <$> y) s₁) : (f <$> x) s = ((fun b => f (g b)) <$> y) s₁ := by
  have hx : (f <$> x) s = (f <$> g <$> y) s₁ := by
    show EStateM.map f x s = EStateM.map f (g <$> y) s₁
    unfold EStateM.map
    rw [h]
  rw [hx, Functor.map_map]

theorem grammar_statements (c : Context) (ended : c.stream.Ended) (s : State)
    (hbound : s.position ≤ c.stream.size) :
    grammar c.budget (.statements .none) c s =
      if (c.next s).kind = .endOfText then .ok [] s
      else (grammar c.budget .branch c >>= fun statement =>
        (statement :: ·) <$> grammar c.budget (.statements .none) c) s := by
  rw [← grammar_budget_add c ended 1 (.statements .none) s hbound]
  show statementsRule (grammar c.budget) .none c s = _
  unfold statementsRule
  rw [bind_peekKind]
  by_cases hend : (c.next s).kind = .endOfText
  · rw [if_pos hend, if_pos (by rw [hend]; rfl)]
    rfl
  · rw [if_neg hend, if_neg (by simp [hend, ListEnd.covers])]
    simp only [map_eq_pure_bind]

section

variable {stream stream' : TokenStream} (ended : stream.Ended) (ended' : stream'.Ended)
  {c c' : Context} {old : State}

include ended ended'

/-- What a strict reading reads of a whole text, a recovering one reads where another text follows,
and goes on behind it. -/
theorem follows_statements
    (hc : Narrows ⟨0, 0⟩ stream'.size stream stream' (c.under .strict) c')
    (hallow : c'.allowIn = c.allowIn) {s s' s₁' : State} (hs : Continues ⟨0, 0⟩ looselike old s s')
    (hbound : s'.position ≤ stream'.size) {ids : List NodeId}
    (hread : grammar c'.budget (.statements .none) c' s' = .ok ids s₁') :
    exists s₁, Continues ⟨0, 0⟩ looselike old s₁ s₁' ∧ s₁'.position = stream'.size ∧
      grammar c.budget (.statements .none) (c.under .recovering) s =
        ((ids ++ ·) <$> grammar c.budget (.statements .none) (c.under .recovering)) s₁ := by
  have hsize : stream'.size ≤ stream.size := hc.cut.size
  have hstream : c.stream = stream := hc.stream
  have hbudget : c'.budget ≤ c.budget := by
    unfold Context.budget rulesPerToken
    rw [hc.strict.stream, hstream]
    omega
  have hsound' : c'.stream.Ended := by
    rw [hc.strict.stream]
    exact ended'
  have hsound : (c.under .recovering).stream.Ended := by
    show c.stream.Ended
    rw [hstream]
    exact ended
  have hlimit : (c.under .recovering).stream.size = stream.size := congrArg _ hstream
  induction ids generalizing s s' with
  | nil =>
      rw [grammar_statements c' hsound' s' (by rw [hc.strict.stream]; exact hbound)] at hread
      split at hread
      next hend =>
        cases hread
        rw [hc.strict.next_eq, ended'.kind_get_eq_iff] at hend
        refine ⟨s, hs, Nat.le_antisymm hbound hend, ?_⟩
        simp
      next =>
        rcases bind_ok_iff.mp hread with ⟨_, _, _, hrest⟩
        rcases map_ok_iff.mp hrest with ⟨_, _, hcons⟩
        cases hcons
  | cons statement ids ih =>
      rw [grammar_statements c' hsound' s' (by rw [hc.strict.stream]; exact hbound)] at hread
      split at hread
      next => cases hread
      next hmore =>
        rcases bind_ok_iff.mp hread with ⟨statement', s₂', hbranch, hrest⟩
        rcases map_ok_iff.mp hrest with ⟨ids', hids, hcons⟩
        cases hcons
        have hlt : s'.position < stream'.size := by
          rw [hc.strict.next_eq, ended'.kind_get_eq_iff] at hmore
          exact Nat.lt_of_not_le hmore
        have hposition : s.position = s'.position := by
          rw [hs.position]
          exact (Nat.zero_add _).symm
        have hsteps := (steady_grammar ended' c'.budget .branch c' s' hc.strict.stream hbound).1
        rw [hbranch] at hsteps
        -- The first statement ends inside the first text, so that it is followed.
        have hfollowed := follows_grammar stream'.size (spanning_any _ stream stream')
          ended' old hbudget
          .branch 0 (c.under .strict) c' s s' hc hbound hs nofun (fun hat => absurd hat (by omega))
          statement s₂' hbranch (by rw [Nat.zero_add]; exact hsteps.bounded)
        rcases hfollowed with ⟨first, s₂, hstrict, hfirst, hs₂⟩ | hhalts
        · have hfirst : statement = first := hfirst.trans (Offset.id_zero 0 first)
          subst hfirst
          have hrecovering := (lockstep_grammar ended c.budget .branch c s hstream
            (by omega)).accepted _ s₂ hstrict
          rcases ih hs₂ hsteps.bounded hids with ⟨s₁, hs₁, hend, hgoes⟩
          refine ⟨s₁, hs₁, hend, ?_⟩
          have hmore₁ : ((c.under .recovering).next s).kind ≠ .endOfText := by
            have hsame := hs.kind_next_of_lt hc (by omega)
            exact fun hend => hmore (hsame.trans hend)
          refine (grammar_statements (c.under .recovering) hsound s (by omega)).trans ?_
          rw [if_neg hmore₁]
          exact (bind_of_ok hrecovering).trans (map_eq_of_eq_map hgoes)
        · cases hhalts with
          | atIn hdiffer _ _ _ => exact absurd hallow hdiffer
          | atStop hclosed _ _ => cases hclosed

end

/-!
## Contexts of joined texts
-/

section

variable {text text' : String} {stream stream' joined : TokenStream}
  (hjoins : TokenStream.Joins text.utf8ByteSize stream stream' joined)

include hjoins

theorem textOf_joined (o : Options) (first stop : Nat) :
    (scriptContext (text ++ text') joined o).textOf (stream.size + first) (stream.size + stop) =
      (scriptContext text' stream' o).textOf first stop := by
  have htext : (scriptContext (text ++ text') joined o).text = text.toList ++ text'.toList :=
    String.toList_append
  unfold Context.textOf Context.textBetween
  by_cases hle : stop ≤ first
  · rw [if_pos hle, if_pos (Nat.add_le_add_left hle _)]
  · have hlast : stream.size + stop - 1 = stream.size + (stop - 1) := by omega
    rw [if_neg hle, if_neg fun h => hle (Nat.le_of_add_le_add_left h), hlast, htext]
    show String.ofList (Text.slice (joined.get (stream.size + first)).place.offset
      ((joined.get (stream.size + (stop - 1))).place.offset +
        (joined.get (stream.size + (stop - 1))).lexeme.utf8ByteSize) _) = _
    rw [(hjoins.behind first).offset, (hjoins.behind (stop - 1)).offset,
      (hjoins.behind (stop - 1)).lexeme, Nat.add_assoc, utf8ByteSize_eq text, slice_add_append]
    rfl

theorem mirrors_joined (nodes : Nat) (o : Options) :
    Mirrors ⟨stream.size, nodes⟩ looselike (scriptContext text' stream' o)
      (scriptContext (text ++ text') joined o) where
  options := rfl
  allowIn := rfl
  depth := rfl
  size := hjoins.size
  kind p := (hjoins.behind p).kind
  lexeme p := (hjoins.behind p).lexeme
  newlineBefore p := (hjoins.behind p).newlineBefore
  span _ _ := trivial
  text first stop _ := textOf_joined hjoins o first stop
  exact := False.elim

/-- The statements of a text that ends with a semicolon are read where another text follows. -/
theorem narrows_joined (ended : stream.Ended)
    (hlast : (stream.get (stream.size - 1)).kind = .punctuator .semicolon)
    (helse : (stream'.get 0).kind ≠ .keyword .elseWord) :
    Narrows ⟨0, 0⟩ stream.size joined stream (scriptContext (text ++ text') joined .strict)
      (scriptContext text stream .strict) where
  cut := {
    size := by
      rw [hjoins.size]
      exact Nat.le_add_right _ _
    kind := fun p hp => by rw [Nat.zero_add, hjoins.front p hp]
    lexeme := fun p hp => by rw [Nat.zero_add, hjoins.front p hp]
    newlineBefore := fun p _ hp => by rw [Nat.zero_add, hjoins.front p hp]
    next := .inr {
      semicolon := by rw [Nat.zero_add]; exact hlast
      kind := by
        rw [Nat.zero_add]
        exact (ended.kind_get_eq_iff _).mpr (Nat.le_refl _)
      noElse := by
        rw [← Nat.add_zero stream.size, (hjoins.behind 0).kind]
        exact helse } }
  next _ := rfl
  strict := ⟨rfl, rfl⟩
  recover := rfl
  depth := Nat.le_refl _
  allowIn _ := rfl
  stream := rfl

end

/-!
## Printed statements
-/

end Grammar

namespace Syntax
namespace SyntaxTree

def statementSources (t : SyntaxTree) : Except TreeFault (List String) := do
  (← t.statements).mapM t.toSource

end SyntaxTree
end Syntax

namespace Grammar

open Syntax Token

/-- The statements that recovery reads in a text are printed like this. -/
def Recovers (text : String) (sources : List String) : Prop :=
  exists tree ds, parseScript text .recovering = .ok (tree, ds) ∧
    tree.statementSources = .ok sources

section

variable {text text' : String} {stream stream' joined : TokenStream}

theorem exists_scriptReading (h : tokensOf text = .ok stream) {o : Options}
    {parsed : SyntaxTree × Diagnostics} (hparse : parseScript text o = .ok parsed) :
    exists ids s, scriptReading text stream o = .ok ids s := by
  rw [parseScript_of_tokens h] at hparse
  cases hread : scriptReading text stream o with
  | ok ids s => exact ⟨ids, s, rfl⟩
  | error e s =>
      rw [hread] at hparse
      cases hparse

theorem sound_of_scriptReading (h : tokensOf text = .ok stream) (o : Options) {ids : List NodeId}
    {s : State} (hread : scriptReading text stream o = .ok ids s) :
    s.tree.Sound ∧ forall id, id ∈ ids -> id.index < s.tree.size := by
  have hgrows := (growing_grammar (scriptContext text stream o).budget).fresh
    (.statements .none) rfl
    (scriptContext text stream o) rfl (ended_tokensOf h) State.start
  have hread : grammar (scriptContext text stream o).budget (.statements .none)
      (scriptContext text stream o) State.start = .ok ids s := hread
  unfold Grows at hgrows
  rw [hread] at hgrows
  rcases hgrows with ⟨f, hgrown, hreached⟩
  have hroots : f.roots = ids := hreached.rooted.roots
  refine ⟨hgrown.kept.sound SyntaxTree.sound_empty, fun id hid => ?_⟩
  rw [← hroots] at hid
  exact hgrown.entries.index_lt (f.roots_sublist_postOrder.subset hid)

theorem exists_script_of_reading (h : tokensOf text = .ok stream) {o : Options} {ids : List NodeId}
    {s : State} (hread : scriptReading text stream o = .ok ids s) :
    exists tree ds, parseScript text o = .ok (tree, ds) ∧ tree.statements = .ok ids ∧
      s.tree.Copied id tree := by
  let script := (s.added (scriptContext text stream o) 0 (.script ids)).tree
  have hnode : script.node s.tree.nextId = .ok (.script ids) := s.tree.node_add_nextId _ _
  have hcopied : s.tree.Copied id script := (s.tree.extends_add _ _).copied
  refine ⟨script.withRoot s.tree.nextId, s.diagnostics, ?_, ?_, hcopied.withRoot s.tree.nextId⟩
  · rw [parseScript_of_tokens h, hread]
    rfl
  · show Except.map _ (script.node s.tree.nextId) = _
    rw [hnode]
    rfl

theorem recovers_of_reading (h : tokensOf text = .ok stream) {ids : List NodeId} {s : State}
    (hread : scriptReading text stream .recovering = .ok ids s) {sources : List String}
    (hsources : ids.mapM s.tree.toSource = .ok sources) : Recovers text sources := by
  rcases sound_of_scriptReading h .recovering hread with ⟨hsound, hids⟩
  rcases exists_script_of_reading h hread with ⟨tree, ds, hparse, hstatements, hcopied⟩
  refine ⟨tree, ds, hparse, ?_⟩
  unfold SyntaxTree.statementSources
  rw [hstatements]
  have hsame := hcopied.mapM_toSource_eq hsound hids
  rw [List.map_id] at hsame
  exact hsame.trans hsources

theorem exists_sources {t : SyntaxTree} (hsound : t.Sound) {ids : List NodeId}
    (hids : forall id, id ∈ ids -> id.index < t.size) :
    exists sources, ids.mapM t.toSource = .ok sources := by
  rcases (Yields.mapM fun id hid => hsound.toSource_faultless (hids id hid)) with
    ⟨sources, hsources, _⟩
  exact ⟨sources, hsources⟩

/--
What recovery reads in a text that can be read strictly and ends with a semicolon, and in another
text alone, it reads in both texts one behind the other, unless the second one begins with `else`.
-/
theorem recovers_append {last : Token} {parsed : SyntaxTree × Diagnostics}
    (h : tokensOf text = .ok stream) (hparse : parseScript text .strict = .ok parsed)
    (hlast : stream.body.toList.getLast? = some last) (hmark : last.kind = .punctuator .semicolon)
    (hend : last.stopOffset = text.utf8ByteSize) (hjoined : tokensOf (text ++ text') = .ok joined)
    (helse : forall stream', tokensOf text' = .ok stream' ->
      (stream'.get 0).kind ≠ .keyword .elseWord) :
    exists sources sources', Recovers text sources ∧ Recovers text' sources' ∧
      Recovers (text ++ text') (sources ++ sources') := by
  rcases tokensOf_append h hlast hmark hend hjoined with ⟨stream', h', hjoins⟩
  have ended := ended_tokensOf h
  have hmark' : (stream.get (stream.size - 1)).kind = .punctuator .semicolon := by
    rw [List.getLast?_eq_getElem?, Array.length_toList, Array.getElem?_toList] at hlast
    unfold TokenStream.get TokenStream.size
    rw [hlast]
    exact hmark
  rcases exists_scriptReading h hparse with ⟨ids, s₁', hstrict⟩
  have hrecovering := (scriptReading_conservative text h).accepted ids s₁' hstrict
  rcases recovering_script text' h' true with ⟨_, _, _, _, hparse', _⟩
  rcases exists_scriptReading (o := .recovering) h' hparse' with ⟨ids', s₂, hread'⟩
  have hs : Continues ⟨0, 0⟩ looselike State.start State.start State.start :=
    ⟨rfl, SyntaxTree.displaced_empty rfl, nofun⟩
  rcases follows_statements (c := scriptContext (text ++ text') joined .strict)
    (ended_tokensOf hjoined) ended (narrows_joined hjoins ended hmark' (helse stream' h')) rfl hs
    (Nat.zero_le _) hstrict with ⟨s₁, hs₁, hposition, hgoes⟩
  -- The statements of the second text are read behind the nodes of the first one.
  have hbehind : Continues ⟨stream.size, s₁.tree.size⟩ looselike s₁ State.start s₁ :=
    ⟨by rw [← hposition, hs₁.position]; simp [State.start], SyntaxTree.displaced_empty rfl, nofun⟩
  have hrepeats : Repeats ⟨stream.size, s₁.tree.size⟩ looselike s₁ _
      (scriptReading text' stream' .recovering) _ :=
    Parser.repeats_budget (ended_tokensOf h') (mirrors_joined hjoins s₁.tree.size .recovering)
      hbehind (Nat.zero_le _) (.statements .none) rfl
  rw [hread'] at hrepeats
  generalize hmore : grammar _ _ _ s₁ = r at hrepeats
  cases hrepeats with
  | @ok _ s₂' _ hs₂ =>
    have hread : scriptReading (text ++ text') joined .recovering =
        .ok (ids ++ ids'.map (Offset.id ⟨stream.size, s₁.tree.size⟩)) s₂' :=
      hgoes.trans (map_ok_iff.mpr ⟨_, hmore, rfl⟩)
    rcases sound_of_scriptReading h .strict hstrict with ⟨hsound, hids⟩
    rcases sound_of_scriptReading h' .recovering hread' with ⟨hsound', hids'⟩
    rcases exists_sources hsound hids with ⟨sources, hsources⟩
    rcases exists_sources hsound' hids' with ⟨sources', hsources'⟩
    refine ⟨sources, sources', recovers_of_reading h hrecovering hsources,
      recovers_of_reading h' hread' hsources', recovers_of_reading hjoined hread ?_⟩
    have hfront := (hs₁.tree.copied_back rfl).trans (hs₂.tree.copied_front rfl)
    have hsame := hfront.mapM_toSource_eq hsound hids
    rw [List.map_id, hsources] at hsame
    rw [List.mapM_append, hsame, hs₂.tree.copied.mapM_toSource_eq hsound' hids', hsources']
    rfl

end

def endedStatement : TokenStream :=
  { body := #[⟨.identifier, "a", ⟨1, 1, 0⟩, false⟩, ⟨.punctuator .semicolon, ";", ⟨1, 2, 1⟩, false⟩]
    stop := ⟨.endOfText, "", ⟨1, 3, 2⟩, false⟩ }

theorem tokensOf_endedStatement : tokensOf "a;" = .ok endedStatement := by
  cbv

theorem parseScript_endedStatement :
    parseScript "a;" .strict =
      .ok (⟨#[⟨.identifier "a", ⟨1, 1, 1, 1⟩, some ⟨1⟩⟩,
          ⟨.expressionStatement ⟨0⟩, ⟨1, 1, 1, 2⟩, some ⟨2⟩⟩, ⟨.script [⟨1⟩], ⟨1, 1, 1, 2⟩, none⟩],
        some ⟨2⟩⟩, Diagnostics.empty) := by
  cbv

theorem tokensOf_parenthesis :
    tokensOf ")b" =
      .ok ⟨#[⟨.punctuator .closeParen, ")", ⟨1, 1, 0⟩, false⟩,
        ⟨.identifier, "b", ⟨1, 2, 1⟩, false⟩],
        ⟨.endOfText, "", ⟨1, 3, 2⟩, false⟩⟩ := by
  cbv

theorem recovers_append_strayParenthesis :
    tokensOf "a;" = .ok endedStatement ∧ tokensOf ("a;" ++ ")b") = .ok strayParenthesis ∧
      exists sources sources', Recovers "a;" sources ∧ Recovers ")b" sources' ∧
        Recovers ("a;" ++ ")b") (sources ++ sources') := by
  refine ⟨tokensOf_endedStatement, tokensOf_strayParenthesis,
    recovers_append tokensOf_endedStatement parseScript_endedStatement rfl rfl rfl
      tokensOf_strayParenthesis ?_⟩
  intro stream' h'
  rw [tokensOf_parenthesis] at h'
  cases h'
  exact nofun

end Grammar
end ScriptHints
