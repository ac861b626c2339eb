import Mathlib
import ScriptHints.Proofs.Reader.Budget
import ScriptHints.Proofs.Recovery.Conservative
import ScriptHints.Proofs.Recovery.Reports
import ScriptHints.Proofs.Recovery.Tiling

/-!
# Recovering readings of scripts

What recovery means for a whole text. A text with tokens is always read, its statements
tile its tokens, and without diagnostics it is read as a strict reading would read it.
-/

namespace ScriptHints
namespace Grammar

open Syntax Token

/-!
## Readings of scripts
-/

def scriptContext (text : String) (stream : TokenStream) (o : Options) : Context :=
  (Parser.ofTokens text stream o).context

def scriptReading (text : String) (stream : TokenStream) (o : Options) :
    EStateM.Result SyntaxError State (List NodeId) :=
  grammar (scriptContext text stream o).budget (.statements .none) (scriptContext text stream o)
    State.start

def scriptResult (c : Context) :
    EStateM.Result SyntaxError State (List NodeId) → Except ParseError (SyntaxTree × Diagnostics)
  | .ok ids s =>
      .ok ((s.added c 0 (.script ids)).tree.withRoot s.tree.nextId, s.diagnostics)
  | .error e _ => .error (.syntactic e)

theorem Parser.run_of_ok {p : Parser} {read : Reader NodeId} {root : NodeId} {s : State}
    (h : read p.state = .ok root s) :
    p.run read =
    (.ok (s.tree.withRoot root), ⟨p.context, { s with tree := SyntaxTree.empty }⟩) := by
  have hrun : read.run p.state = .ok root s := h
  unfold Parser.run
  rw [hrun]

theorem Parser.run_of_error {p : Parser} {read : Reader NodeId} {e : SyntaxError} {s : State}
    (h : read p.state = .error e s) : p.run read = (.error e, ⟨p.context, s⟩) := by
  have hrun : read.run p.state = .error e s := h
  unfold Parser.run
  rw [hrun]

theorem parseScript_of_lexical {text : String} {e : LexicalError} (h : tokensOf text = .error e)
    (o : Options) : parseScript text o = .error (.lexical e) := by
  unfold parseScript Parser.ofText
  rw [h]
  rfl

theorem parseScript_of_tokens {text : String} {stream : TokenStream}
    (h : tokensOf text = .ok stream) (o : Options) :
    parseScript text o =
      scriptResult (scriptContext text stream o) (scriptReading text stream o) := by
  unfold parseScript Parser.ofText
  rw [h]
  cases heq : scriptReading text stream o with
  | ok ids s =>
      have hread : Parser.readScript (scriptContext text stream o) State.start =
          .ok s.tree.nextId (s.added (scriptContext text stream o) 0 (.script ids)) := by
        unfold Parser.readScript
        rw [bind_position, bind_of_ok heq, addSince_eq]
        rfl
      have hscript : (Parser.ofTokens text stream o).script = _ := Parser.run_of_ok hread
      simp only [Except.map]
      rw [hscript]
      rfl
  | error e s =>
      have hread : Parser.readScript (scriptContext text stream o) State.start = .error e s := by
        unfold Parser.readScript
        rw [bind_position, bind_of_error heq]
      have hscript : (Parser.ofTokens text stream o).script = _ := Parser.run_of_error hread
      simp only [Except.map]
      rw [hscript]
      rfl

/-!
## Totality
-/

def unclosedCall : TokenStream :=
  { body := #[⟨.identifier, "f", ⟨1, 1, 0⟩, false⟩,
      ⟨.punctuator .openParen, "(", ⟨1, 2, 1⟩, false⟩, ⟨.identifier, "a", ⟨1, 3, 2⟩, false⟩]
    stop := ⟨.endOfText, "", ⟨1, 4, 3⟩, false⟩ }

theorem tokensOf_unclosedCall : tokensOf "f(a" = .ok unclosedCall := by
  cbv

theorem recovering_script (text : String) {stream : TokenStream}
    (h : tokensOf text = .ok stream) (report : Bool) :
    exists tree ds root ids, parseScript text ⟨true, report⟩ = .ok (tree, ds) ∧
      tree.root = some root ∧ tree.node root = .ok (.script ids) ∧
      Tiles (scriptContext text stream ⟨true, report⟩) tree ids 0 stream.size := by
  have hneed : rulesPerToken * (stream.size - State.start.position) + 9 ≤
      (scriptContext text stream ⟨true, report⟩).budget := by
    show rulesPerToken * (stream.size - 0) + 9 ≤ rulesPerToken * (stream.size + 2)
    unfold rulesPerToken
    omega
  rcases statements_ok (ended_tokensOf h) _ (scriptContext text stream ⟨true, report⟩) rfl rfl
    State.start (Nat.zero_le _) hneed with ⟨ids, s, hread, hposition, htiles⟩
  have hread : scriptReading text stream ⟨true, report⟩ = .ok ids s := hread
  rw [hposition] at htiles
  have hgrown : s.tree.Extends
      (s.added (scriptContext text stream ⟨true, report⟩) 0 (.script ids)).tree :=
    s.tree.extends_add _ _
  refine ⟨_, s.diagnostics, s.tree.nextId, ids, ?_, rfl, ?_, (htiles.grow hgrown).withRoot _⟩
  · rw [parseScript_of_tokens h, hread]
    rfl
  · exact SyntaxTree.node_add_nextId s.tree _ _

/--
A recovering reading fails for a text without tokens only. It gives a script whose
statements tile the tokens. Its budget never runs out, not even where recovery would hide it:
on the checked machine, whose recovery does not take up a reading that stopped, and with a
larger budget, it is the same reading.
-/
theorem recovering_script_tiles (text : String) (report : Bool) :
    (forall stream, tokensOf text = .ok stream ->
      exists tree ds root ids, parseScript text ⟨true, report⟩ = .ok (tree, ds) ∧
        tree.root = some root ∧ tree.node root = .ok (.script ids) ∧
        Tiles (scriptContext text stream ⟨true, report⟩) tree ids 0 stream.size ∧
        forall more,
          grammar ((scriptContext text stream ⟨true, report⟩).budget + more) (.statements .none)
              (scriptContext text stream ⟨true, report⟩) State.start =
            scriptReading text stream ⟨true, report⟩ ∧
          Settled (scriptReading text stream ⟨true, report⟩)
            (@grammar .checked ((scriptContext text stream ⟨true, report⟩).budget + more)
              (.statements .none) (scriptContext text stream ⟨true, report⟩) State.start)) ∧
    ((exists e, parseScript text ⟨true, report⟩ = .error e) ↔
      exists e, tokensOf text = .error e) := by
  constructor
  · intro stream h
    rcases recovering_script text h report with ⟨tree, ds, root, ids, hparse, hroot, hnode, htiles⟩
    refine ⟨tree, ds, root, ids, hparse, hroot, hnode, htiles, ?_⟩
    intro more
    constructor
    · exact grammar_budget_add _ (ended_tokensOf h) more _ _ (Nat.zero_le _)
    · exact settled_grammar (ended_tokensOf h) _ more _ _ _ rfl (Nat.zero_le _)
        (Goal.need_le_budget _ (scriptContext text stream ⟨true, report⟩) _)
  · constructor
    · rintro ⟨e, hfails⟩
      cases htokens : tokensOf text with
      | error e' => exact ⟨e', rfl⟩
      | ok stream =>
          rcases recovering_script text htokens report with ⟨tree, ds, root, ids, hparse, _⟩
          rw [hparse] at hfails
          cases hfails
    · rintro ⟨e, hfails⟩
      exact ⟨.lexical e, parseScript_of_lexical hfails _⟩

theorem recovering_script_tiles_unclosedCall :
    exists tree ds root ids, parseScript "f(a" ⟨true, true⟩ = .ok (tree, ds) ∧
      tree.root = some root ∧ tree.node root = .ok (.script ids) ∧
      Tiles (scriptContext "f(a" unclosedCall ⟨true, true⟩) tree ids 0 unclosedCall.size ∧
      forall more,
        grammar ((scriptContext "f(a" unclosedCall ⟨true, true⟩).budget + more) (.statements .none)
            (scriptContext "f(a" unclosedCall ⟨true, true⟩) State.start =
          scriptReading "f(a" unclosedCall ⟨true, true⟩ ∧
        Settled (scriptReading "f(a" unclosedCall ⟨true, true⟩)
          (@grammar .checked ((scriptContext "f(a" unclosedCall ⟨true, true⟩).budget + more)
            (.statements .none) (scriptContext "f(a" unclosedCall ⟨true, true⟩) State.start) :=
  (recovering_script_tiles "f(a" true).1 unclosedCall tokensOf_unclosedCall

/-!
## Agreement with strict readings
-/

theorem scriptReading_hushed (text : String) {stream : TokenStream}
    (h : tokensOf text = .ok stream) (o : Options) :
    Hushed Diagnostics.empty (scriptReading text stream o) (scriptReading text stream o.silenced) :=
  hushed_grammar (ended_tokensOf h) Diagnostics.empty (scriptContext text stream o).budget
    (.statements .none) (scriptContext text stream o) o State.start rfl (Nat.zero_le _)

theorem scriptReading_conservative (text : String) {stream : TokenStream}
    (h : tokensOf text = .ok stream) :
    Conservative State.start (scriptReading text stream .strict)
      (scriptReading text stream .recovering) :=
  lockstep_grammar (ended_tokensOf h) (scriptContext text stream .strict).budget
    (.statements .none) (scriptContext text stream .strict) State.start rfl (Nat.zero_le _)

theorem scriptReading_strict_diagnostics {text : String} {stream : TokenStream}
    (h : tokensOf text = .ok stream) {ids : List NodeId} {s : State}
    (hread : scriptReading text stream .strict = .ok ids s) :
    s.diagnostics = Diagnostics.empty := by
  have hsteps := (steady_grammar (ended_tokensOf h) (scriptContext text stream .strict).budget
    (.statements .none) (scriptContext text stream .strict) State.start rfl (Nat.zero_le _)).1
  have hread' : grammar (scriptContext text stream .strict).budget (.statements .none)
      (scriptContext text stream .strict) State.start = .ok ids s := hread
  rw [hread'] at hsteps
  exact hsteps.silent (.inl rfl)

theorem scriptResult_of_hushed (c : Context) (o : Options)
    {r r' : EStateM.Result SyntaxError State (List NodeId)}
    (h : Hushed Diagnostics.empty r r') :
    scriptResult (c.under o.silenced) r' =
      (scriptResult c r).map fun result => (result.1, Diagnostics.empty) := by
  cases h with
  | ok ids s => rfl
  | error e s => rfl

theorem parseScript_silenced (text : String) (o : Options) :
    parseScript text o.silenced =
      (parseScript text o).map fun result => (result.1, Diagnostics.empty) := by
  cases htokens : tokensOf text with
  | error e =>
      rw [parseScript_of_lexical htokens, parseScript_of_lexical htokens]
      rfl
  | ok stream =>
      rw [parseScript_of_tokens htokens, parseScript_of_tokens htokens]
      exact scriptResult_of_hushed (scriptContext text stream o) o
        (scriptReading_hushed text htokens o)

theorem parseScript_strict_iff {text : String} {stream : TokenStream}
    (h : tokensOf text = .ok stream) (tree : SyntaxTree) (ds : Diagnostics) :
    parseScript text .strict = .ok (tree, ds) ↔
      ds = Diagnostics.empty ∧ parseScript text .recovering = .ok (tree, ds) := by
  have hagree := scriptReading_conservative text h
  rw [parseScript_of_tokens h, parseScript_of_tokens h]
  constructor
  · intro hstrict
    cases hread : scriptReading text stream .strict with
    | error e s =>
        rw [hread] at hstrict
        cases hstrict
    | ok ids s =>
        rw [hread] at hstrict
        rw [hagree.accepted ids s hread]
        cases hstrict
        exact ⟨scriptReading_strict_diagnostics h hread, rfl⟩
  · rintro ⟨hquiet, hrecovering⟩
    cases hread : scriptReading text stream .recovering with
    | error e s =>
        rw [hread] at hrecovering
        cases hrecovering
    | ok ids s =>
        rw [hread] at hrecovering
        cases hrecovering
        rw [hagree.reflected ids s hread hquiet]
        rfl

/--
A recovering reading has no diagnostics if and only if a strict reading accepts the text,
and then both give the same tree. Without reports a recovering reading is the same but for
the diagnostics.
-/
theorem recovering_conservative (text : String) :
    (forall stream, tokensOf text = .ok stream ->
      exists tree ds, parseScript text .recovering = .ok (tree, ds) ∧
        (ds.isEmpty = true ↔ exists result, parseScript text .strict = .ok result) ∧
        forall result, parseScript text .strict = .ok result ->
          result = (tree, Diagnostics.empty)) ∧
    parseScript text .lenient =
      (parseScript text .recovering).map fun result => (result.1, Diagnostics.empty) := by
  refine ⟨?_, parseScript_silenced text .recovering⟩
  intro stream h
  rcases recovering_script text h true with ⟨tree, ds, _, _, hparse, _⟩
  have hparse : parseScript text .recovering = .ok (tree, ds) := hparse
  have hstrict (result : SyntaxTree × Diagnostics)
      (haccepted : parseScript text .strict = .ok result) :
      ds = Diagnostics.empty ∧ result = (tree, Diagnostics.empty) := by
    rcases (parseScript_strict_iff h result.1 result.2).mp haccepted with ⟨hquiet, hrecovering⟩
    rw [hparse] at hrecovering
    cases hrecovering
    exact ⟨hquiet, congrArg (Prod.mk result.1) hquiet⟩
  refine ⟨tree, ds, hparse, ?_, fun result haccepted => (hstrict result haccepted).2⟩
  constructor
  · intro hempty
    have hquiet : ds = Diagnostics.empty := by
      cases ds
      exact congrArg Diagnostics.mk (Array.isEmpty_iff.mp hempty)
    exact ⟨(tree, ds), (parseScript_strict_iff h tree ds).mpr ⟨hquiet, hparse⟩⟩
  · rintro ⟨result, haccepted⟩
    rw [(hstrict result haccepted).1]
    rfl

theorem recovering_conservative_unclosedCall :
    exists tree ds, parseScript "f(a" .recovering = .ok (tree, ds) ∧
      (ds.isEmpty = true ↔ exists result, parseScript "f(a" .strict = .ok result) ∧
      forall result, parseScript "f(a" .strict = .ok result ->
        result = (tree, Diagnostics.empty) :=
  (recovering_conservative "f(a").1 unclosedCall tokensOf_unclosedCall

end Grammar
end ScriptHints
