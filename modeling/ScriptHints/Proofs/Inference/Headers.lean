import ScriptHints.Proofs.Parallel.Heads
import ScriptHints.Proofs.Parallel.Joined

/-!
# Headers that are complete

A text that is being entered wants a hint for a part of the header of its first statement. Once
the header is closed, whatever is entered behind it does not change what the hint is for.
-/

namespace ScriptHints
namespace Grammar

open Syntax Token

/-!
## The first statement
-/

section

variable {budget : Nat} {c : Context} (hdepth : c.depth < nestingLimit) {s s' : State} {id : NodeId}

include hdepth

theorem branch_of_statementRule
    (h : statementRule (grammar budget) c.deeper s = .ok id s') :
    grammar (budget + 2) .branch c s = .ok id s' := by
  have hstatement : grammar (budget + 1) .statement c s = .ok id s' := by
    show nested c (statementRule (grammar budget)) s = _
    rw [nested_eq, if_neg (Nat.not_le_of_lt hdepth)]
    exact h
  show branchRule (grammar (budget + 1)) c s = _
  unfold branchRule
  rw [recovering_eq]
  split
  next => rw [hstatement]
  next => exact hstatement

theorem statementRule_of_branch (hstrict : c.options.recover = false)
    (h : grammar (budget + 2) .branch c s = .ok id s') :
    statementRule (grammar budget) c.deeper s = .ok id s' := by
  have h : branchRule (grammar (budget + 1)) c s = .ok id s' := h
  rw [branchRule_eq_statement hstrict] at h
  have h : nested c (statementRule (grammar budget)) s = .ok id s' := h
  rw [nested_eq, if_neg (Nat.not_le_of_lt hdepth)] at h
  exact h

end

variable {text text' : String} {stream stream' : TokenStream}

theorem scriptContext_depth_lt (text : String) (stream : TokenStream) (o : Options) :
    (scriptContext text stream o).depth < nestingLimit := by
  show 0 < nestingLimit
  decide

/-- The first statement of a script is a node of its tree, and the other ones come behind it. -/
theorem first_of_scriptReading (h : tokensOf text = .ok stream) {o : Options} {id : NodeId}
    {ids : List NodeId} {s : State} (hread : scriptReading text stream o = .ok (id :: ids) s) :
    exists s₁, grammar (scriptContext text stream o).budget .branch (scriptContext text stream o)
        State.start = .ok id s₁ ∧ s₁.tree.Extends s.tree := by
  have ended := ended_tokensOf h
  have hread : grammar (scriptContext text stream o).budget (.statements .none)
      (scriptContext text stream o) State.start = .ok (id :: ids) s := hread
  rw [grammar_statements _ ended _ (Nat.zero_le _)] at hread
  split at hread
  next => cases hread
  next =>
    rcases bind_ok_iff.mp hread with ⟨_, s₁, hbranch, hmore⟩
    rcases map_ok_iff.mp hmore with ⟨_, hrest, hcons⟩
    cases hcons
    have hsteady := steady_grammar ended (scriptContext text stream o).budget
    have hbound :=
      (hsteady .branch (scriptContext text stream o) State.start rfl (Nat.zero_le _)).1.bounded
    rw [hbranch] at hbound
    have hgrown := (hsteady (.statements .none) (scriptContext text stream o) s₁ rfl hbound).1.grown
    rw [hrest] at hgrown
    exact ⟨s₁, hbranch, hgrown⟩

/-- A script whose first statement has a head begins with this head. -/
theorem exists_head_of_script (h : tokensOf text = .ok stream) {tree : SyntaxTree}
    {ds : Diagnostics}
    {id : NodeId} {ids : List NodeId} {node : Node}
    (hparse : parseScript text .strict = .ok (tree, ds))
    (hfirst : tree.statements = .ok (id :: ids))
    (hnode : tree.node id = .ok node) (hheaded : node.isHeaded = true) :
    exists budget headed head s, (stream.get 0).kind = .keyword (Headed.word headed) ∧
      headRule (grammar budget) headed (scriptContext text stream .strict).deeper State.start =
        .ok head s := by
  rcases exists_scriptReading h hparse with ⟨ids', s, hread⟩
  rcases exists_script_of_reading h hread with ⟨tree', ds', hparse', hstatements, hcopied⟩
  rw [hparse] at hparse'
  cases hparse'
  rw [hfirst] at hstatements
  cases hstatements
  rcases first_of_scriptReading h hread with ⟨s₁, hbranch, hgrown⟩
  have hbudget : exists budget, (scriptContext text stream .strict).budget = budget + 2 := by
    refine ⟨_, (Nat.sub_add_cancel ?_).symm⟩
    unfold Context.budget rulesPerToken
    omega
  rcases hbudget with ⟨budget, hbudget⟩
  rw [hbudget] at hbranch
  have hstatement := statementRule_of_branch (scriptContext_depth_lt ..) rfl hbranch
  rcases exists_head_of_statementRule hstatement with ⟨node', hnode', hhead⟩
  have hsame := (hgrown.copied.trans hcopied).node_eq hnode'
  rw [id_eq, hnode, Node.map_id] at hsame
  cases hsame
  rcases hhead hheaded with ⟨headed, head, s₂, hword, hread⟩
  exact ⟨budget, headed, head, s₂, hword, hread⟩

theorem closed_of_headRule {reach : Strategy} {headed : Headed} {c : Context}
    (ended : c.stream.Ended) (hstrict : c.options.recover = false) {s s' : State} {head : Head}
    (h : headRule reach headed c s = .ok head s') :
    exists stop, s'.position = stop + 1 ∧ (c.stream.get stop).kind = .punctuator .closeParen := by
  unfold headRule at h
  rcases bind_ok_iff.mp h with ⟨_, s₁, _, hclosing⟩
  rcases bind_ok_iff.mp hclosing with ⟨_, _, hclose, hreturn⟩
  cases hreturn
  rw [expectClosing_eq_expect hstrict] at hclose
  rcases kind_of_expect_ok hclose with ⟨hmark, rfl⟩
  exact ⟨s₁.position, moved_position ended (by rw [hmark]; exact nofun), hmark⟩

section

variable {stop : Nat} (hsize : stop < stream'.size)
  (hsame : forall i, i ≤ stop -> stream'.get i = stream.get i)

include hsame

theorem tightAt_of_same : TightAt ⟨0, 0⟩ stop stream' stream := by
  refine .inr ?_
  rw [Nat.zero_add, hsame stop (Nat.le_refl _)]
  exact ⟨rfl, rfl, fun _ => rfl⟩

include hsize

theorem narrows_of_same (text text' : String) :
    Narrows ⟨0, 0⟩ stop stream' stream (scriptContext text' stream' .strict).deeper
      (scriptContext text stream .strict).deeper where
  cut := {
    size := Nat.le_of_lt hsize
    kind := fun p hp => by rw [Nat.zero_add, hsame p (Nat.le_of_lt hp)]
    lexeme := fun p hp => by rw [Nat.zero_add, hsame p (Nat.le_of_lt hp)]
    newlineBefore := fun p _ hp => by rw [Nat.zero_add, hsame p (Nat.le_of_lt hp)]
    next := .inl (tightAt_of_same hsame) }
  next _ := rfl
  strict := ⟨rfl, rfl⟩
  recover := rfl
  depth := Nat.le_refl _
  allowIn _ := rfl
  stream := rfl

/-- Recovery reads a head as far as it goes, and some body behind it. -/
theorem exists_statement_of_head (h : tokensOf text = .ok stream)
    (h' : tokensOf text' = .ok stream')
    {budget : Nat} {headed : Headed} {head : Head} {s : State}
    (hword : (stream.get 0).kind = .keyword headed.word)
    (hhead : headRule (grammar budget) headed (scriptContext text stream .strict).deeper
      State.start = .ok head s) (hend : s.position = stop + 1) :
    exists statement s' node, grammar (scriptContext text' stream' .recovering).budget .branch
        (scriptContext text' stream' .recovering) State.start = .ok statement s' ∧
      s'.tree.node statement = .ok node ∧
      Inference.relevantPart statement node = head.part ∧ s.tree.Copied id s'.tree := by
  have ended := ended_tokensOf h
  have ended' := ended_tokensOf h'
  have hmore : exists more, (scriptContext text' stream' .strict).budget + budget = more + 1 := by
    refine ⟨_, (Nat.sub_add_cancel ?_).symm⟩
    show 1 ≤ rulesPerToken * (stream'.size + 2) + budget
    unfold rulesPerToken
    omega
  rcases hmore with ⟨more, hmore⟩
  have hs : Continues ⟨0, 0⟩ looselike State.start State.start State.start :=
    ⟨rfl, SyntaxTree.displaced_empty rfl, nofun⟩
  have hnext : ((scriptContext text stream .strict).deeper.next State.start).kind =
      .keyword headed.word := hword
  rcases follows_headRule (spanning_any ⟨0, 0⟩ stream' stream) ended
    (keepsFacts_grammar ⟨0, 0⟩ ended budget) (barred_grammar ⟨0, 0⟩ ended budget)
    (follows_grammar stop (spanning_any ⟨0, 0⟩ stream' stream) ended State.start
      (show budget ≤ more + 1 by omega))
    (narrows_of_same hsize hsame text text') rfl (by rw [Nat.zero_add, hsame stop (Nat.le_refl _)])
    (tightAt_of_same hsame) ended' headed hnext (Nat.zero_le _) hs hhead
    (by rw [hend, Nat.zero_add]) with ⟨head₁, s₁, hstrict, rfl, hs₁⟩
  let c := scriptContext text' stream' .recovering
  have hlt : 0 < stream'.size := by omega
  have hsteady := steady_grammar ended' (more + 1)
  have hhead' : Composed stream' 0 .atToken
      (fun _ o reach => headRule reach headed (c.deeper.under o)) .moved :=
    composed_headRule c.deeper rfl headed
  have hrecovering : headRule (grammar (more + 1)) headed c.deeper State.start = .ok head₁ s₁ :=
    (hhead'.conservative ended' hsteady
      (lockstep_grammar ended' (more + 1)) 0 State.start (Nat.zero_le _)
      ⟨Nat.le_refl _, hlt⟩).accepted head₁ s₁ hstrict
  have hword' : (c.deeper.next State.start).kind = .keyword headed.word := by
    show (stream'.get 0).kind = _
    rw [hsame 0 (Nat.zero_le _)]
    exact hword
  have hrecover : c.deeper.options.recover = true := rfl
  rcases bodyRule_ok more hrecover 0 head₁ s₁ with
    ⟨statement, s₂, node, hbody, hnode, hpart⟩
  have hstatement := (statementRule_of_head hword' hrecovering).trans hbody
  have hbranch := branch_of_statementRule (scriptContext_depth_lt ..) hstatement
  refine ⟨statement, s₂, node, ?_, hnode, ?_, ?_⟩
  · rw [← grammar_budget_add c ended' (budget + 2) .branch State.start (Nat.zero_le _)]
    have hbudget : c.budget + (budget + 2) = more + 1 + 2 := by
      rw [← Nat.add_assoc, ← hmore]
      rfl
    rw [hbudget]
    exact hbranch
  · rw [hpart, Head.part_map]
    cases head₁.part with
    | none => rfl
    | some part => exact congrArg some (Offset.id_zero 0 part).symm
  · have hposition : s₁.position = stop + 1 := by
      rw [← hend, hs₁.position]
      exact (Nat.zero_add _).symm
    have hbound : s₁.position ≤ stream'.size := by omega
    have hmoved : 0 < s₁.position := by omega
    have hbody' : Composed stream' 0 .moved
        (fun _ o reach => bodyRule reach 0 (c.deeper.under o) head₁) .moved :=
      composed_bodyRule c.deeper rfl 0 head₁
    have hgrown := (hbody'.arrives ended' hsteady .recovering 0 s₁ hbound hmoved).1.grown
    have hread : bodyRule (grammar (more + 1)) 0 (c.deeper.under .recovering) head₁ s₁ =
        .ok statement s₂ := hbody
    rw [hread] at hgrown
    exact (hs₁.tree.copied_back rfl).trans hgrown.copied

end

theorem exists_first_of_scriptReading (h : tokensOf text = .ok stream)
    (hmore : (stream.get 0).kind ≠ .endOfText) {o : Options} {ids : List NodeId} {s : State}
    (hread : scriptReading text stream o = .ok ids s) : exists first rest, ids = first :: rest := by
  have hread : grammar (scriptContext text stream o).budget (.statements .none)
      (scriptContext text stream o) State.start = .ok ids s := hread
  rw [grammar_statements _ (ended_tokensOf h) _ (Nat.zero_le _)] at hread
  split at hread
  next hend => exact absurd hend hmore
  next =>
    rcases bind_ok_iff.mp hread with ⟨first, _, _, hrest⟩
    rcases map_ok_iff.mp hrest with ⟨rest, _, rfl⟩
    exact ⟨first, rest, rfl⟩

theorem sound_of_headRule (h : tokensOf text = .ok stream) {budget : Nat} {headed : Headed}
    {head : Head} {s : State} (hword : (stream.get 0).kind = .keyword headed.word)
    (hhead : headRule (grammar budget) headed (scriptContext text stream .strict).deeper
      State.start = .ok head s) :
    s.tree.Sound ∧ forall part, head.part = some part -> part.index < s.tree.size := by
  have hquiet : ((scriptContext text stream .strict).deeper.next State.start).kind.isOperand =
      false := by
    show (stream.get 0).kind.isOperand = false
    rw [hword]
    cases headed <;> rfl
  have hgrows := grows_headRule (growing_grammar budget) (scriptContext text stream .strict).deeper
    (ended_tokensOf h) headed State.start hquiet
  unfold Grows at hgrows
  rw [hhead] at hgrows
  rcases hgrows with ⟨f, hgrown, hroots⟩
  refine ⟨hgrown.kept.sound SyntaxTree.sound_empty, fun part hpart => ?_⟩
  have hmem := Head.mem_ids_of_part hpart
  rw [← hroots.roots] at hmem
  exact hgrown.entries.index_lt (f.roots_sublist_postOrder.subset hmem)

end Grammar

/-!
## What is entered behind a header
-/

namespace Inference

open Grammar Syntax Token

def partSource (t : SyntaxTree) (part : Option NodeId) : Except TreeFault String :=
  part.elim (.ok "") t.toSource

theorem relevantSource_eq {t : SyntaxTree} {first : NodeId} {rest : List NodeId} {node : Node}
    (hstatements : t.statements = .ok (first :: rest)) (hnode : t.node first = .ok node) :
    relevantSource t = partSource t (relevantPart first node) := by
  unfold relevantSource
  rw [hstatements]
  show (t.node first >>= _) = _
  rw [hnode]
  dsimp only [bind, Except.bind]
  cases relevantPart first node <;> rfl

section

variable {text text' : String} {stream stream' : TokenStream} (h : tokensOf text = .ok stream)
  (h' : tokensOf text' = .ok stream')

include h h'

/-- Whatever stands behind a head, a hint is wanted for the same part of it. -/
theorem enteredExpression_of_head {budget : Nat} {headed : Headed} {head : Head} {s : State}
    (hword : (stream.get 0).kind = .keyword headed.word)
    (hhead : headRule (grammar budget) headed (scriptContext text stream .strict).deeper
      State.start = .ok head s) {stop : Nat} (hend : s.position = stop + 1)
    (hsize : stop < stream'.size)
    (hsame : forall i, i ≤ stop -> stream'.get i = stream.get i) :
    enteredExpression text' = partSource s.tree head.part := by
  rcases exists_statement_of_head hsize hsame h h' hword hhead hend with
    ⟨first, s₁, node, hbranch, hnode, hpart, hcopied⟩
  rcases recovering_script text' h' true with ⟨_, _, _, _, hparse, _⟩
  rcases exists_scriptReading (o := .recovering) h' hparse with ⟨ids, s', hread⟩
  have hmore : (stream'.get 0).kind ≠ .endOfText := by
    rw [hsame 0 (Nat.zero_le _), hword]
    exact nofun
  rcases exists_first_of_scriptReading h' hmore hread with ⟨first', rest, rfl⟩
  rcases first_of_scriptReading h' hread with ⟨s₁', hbranch', hgrown⟩
  rw [hbranch] at hbranch'
  cases hbranch'
  rcases exists_script_of_reading h' hread with ⟨tree, ds, hparse, hstatements, hscript⟩
  have hlenient : parseScript text' .lenient = .ok (tree, Diagnostics.empty) := by
    refine (parseScript_silenced text' .recovering).trans ?_
    rw [hparse]
    rfl
  have hlater := hgrown.copied.trans hscript
  have hfirst := hlater.node_eq hnode
  rw [id_eq, Node.map_id] at hfirst
  unfold enteredExpression
  rw [hlenient]
  show relevantSource tree = _
  rw [relevantSource_eq hstatements hfirst, hpart]
  cases hwanted : head.part with
  | none => rfl
  | some part =>
      rcases sound_of_headRule h hword hhead with ⟨hsound, hparts⟩
      exact (hcopied.trans hlater).toSource_eq hsound (hparts part hwanted)

end

/-- The tokens up to a closing parenthesis do not depend on what stands in the lines behind it. -/
theorem same_of_closeParen {header body : String} {stream stream' : TokenStream}
    (h : tokensOf (header ++ "\n" ++ ";") = .ok stream)
    (h' : tokensOf (header ++ "\n" ++ body) = .ok stream') {stop : Nat}
    (hmark : (stream.get stop).kind = .punctuator .closeParen) :
    stop < stream'.size ∧ forall i, i ≤ stop -> stream'.get i = stream.get i := by
  have hstop : stop < stream.size := by
    apply Nat.lt_of_not_le
    intro hle
    rw [((ended_tokensOf h).kind_get_eq_iff stop).mpr hle] at hmark
    cases hmark
  rcases exists_frontAt h hstop with ⟨front, rest, hfront⟩
  have hparenthesis : front.getLast? = some ')' := by
    rcases hfront.lexeme with ⟨before, hbefore⟩
    rw [lexeme_of_punctuator h hmark] at hbefore
    rw [← hbefore]
    exact List.getLast?_concat
  have htext : header.toList ++ ['\n', ';'] = front ++ rest := by
    rw [← hfront.text]
    simp [String.toList_append]
  -- The parenthesis is no part of the last line.
  have hrest : exists more, header.toList = front ++ more ∧ rest = more ++ ['\n', ';'] := by
    rcases List.append_eq_append_iff.mp htext with ⟨more, hmore, hlast⟩ | hrest
    · rw [hmore] at hparenthesis
      rcases more with _ | ⟨c, _ | ⟨c', more⟩⟩
      · exact ⟨[], by rw [hmore]; simp, hlast.symm⟩
      · cases hlast
        simp at hparenthesis
      · cases more with
        | nil =>
            cases hlast
            simp at hparenthesis
        | cons => cases hlast
    · exact hrest
  rcases hrest with ⟨more, hheader, rfl⟩
  refine hfront.tokens (header ++ "\n" ++ body) (more ++ '\n' :: body.toList) stream' ?_ ?_ h'
  · simp [String.toList_append, hheader]
  · apply begins_of_head?_eq
    cases more <;> rfl

/--
A complete header is enough. If the first statement of a text has a head, and only a semicolon for a
body in a line of its own, then a hint is wanted for the same expression whatever is entered in the
place of the semicolon.
-/
theorem enteredExpression_header {header body : String} {tree : SyntaxTree} {ds : Diagnostics}
    {first : NodeId} {rest : List NodeId} {node : Node} {stream : TokenStream}
    (hparse : parseScript (header ++ "\n" ++ ";") .strict = .ok (tree, ds))
    (hfirst : tree.statements = .ok (first :: rest)) (hnode : tree.node first = .ok node)
    (hheaded : node.isHeaded = true) (h : tokensOf (header ++ "\n" ++ body) = .ok stream) :
    exists source, enteredExpression (header ++ "\n" ++ ";") = .ok source ∧
      enteredExpression (header ++ "\n" ++ body) = .ok source := by
  cases htokens : tokensOf (header ++ "\n" ++ ";") with
  | error e =>
      rw [parseScript_of_lexical htokens] at hparse
      cases hparse
  | ok stream₀ =>
      rcases exists_head_of_script htokens hparse hfirst hnode hheaded with
        ⟨budget, headed, head, s, hword, hhead⟩
      rcases closed_of_headRule (ended_tokensOf htokens) rfl hhead with ⟨stop, hend, hmark⟩
      have hsource {body : String} {stream : TokenStream}
          (h : tokensOf (header ++ "\n" ++ body) = .ok stream) :
          enteredExpression (header ++ "\n" ++ body) = partSource s.tree head.part := by
        rcases same_of_closeParen htokens h hmark with ⟨hsize, hsame⟩
        exact enteredExpression_of_head htokens h hword hhead hend hsize hsame
      have hok : exists source, partSource s.tree head.part = .ok source := by
        rcases sound_of_headRule htokens hword hhead with ⟨hsound, hparts⟩
        cases hwanted : head.part with
        | none => exact ⟨"", rfl⟩
        | some part =>
            rcases hsound.toSource_faultless (hparts part hwanted) with ⟨source, hsource, _⟩
            exact ⟨source, hsource⟩
      rcases hok with ⟨source, hok⟩
      exact ⟨source, (hsource htokens).trans hok, (hsource h).trans hok⟩

theorem parseScript_bareCondition :
    parseScript ("if (a)" ++ "\n" ++ ";") .strict =
      .ok (⟨#[⟨.identifier "a", ⟨1, 5, 1, 5⟩, some ⟨2⟩⟩, ⟨.empty, ⟨2, 1, 2, 1⟩, some ⟨2⟩⟩,
          ⟨.ifElse ⟨0⟩ ⟨1⟩ none, ⟨1, 1, 2, 1⟩, some ⟨3⟩⟩,
          ⟨.script [⟨2⟩], ⟨1, 1, 2, 1⟩, none⟩], some ⟨3⟩⟩, Diagnostics.empty) := by
  cbv

theorem tokensOf_strayBody :
    tokensOf ("if (a)" ++ "\n" ++ ")") =
      .ok ⟨#[⟨.keyword .ifWord, "if", ⟨1, 1, 0⟩, false⟩,
        ⟨.punctuator .openParen, "(", ⟨1, 4, 3⟩, false⟩, ⟨.identifier, "a", ⟨1, 5, 4⟩, false⟩,
        ⟨.punctuator .closeParen, ")", ⟨1, 6, 5⟩, false⟩,
        ⟨.punctuator .closeParen, ")", ⟨2, 1, 7⟩, true⟩], ⟨.endOfText, "", ⟨2, 2, 8⟩, false⟩⟩ := by
  cbv

theorem enteredExpression_header_strayBody :
    exists source, enteredExpression ("if (a)" ++ "\n" ++ ";") = .ok source ∧
      enteredExpression ("if (a)" ++ "\n" ++ ")") = .ok source :=
  enteredExpression_header parseScript_bareCondition rfl rfl rfl tokensOf_strayBody

end Inference
end ScriptHints
