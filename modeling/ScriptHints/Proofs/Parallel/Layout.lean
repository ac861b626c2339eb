import ScriptHints.Proofs.Parallel.Runs
import ScriptHints.Proofs.Token.Respaced

/-!
# Layout

A strict reading sees of its tokens only what they are and whether a line has ended before
them. Where in the text they stand does not matter.
-/

namespace ScriptHints
namespace Grammar

open Syntax Token

variable {text text' : String} {stream stream' : TokenStream}

theorem mirrors_unplaced (hsame : stream'.unplaced = stream.unplaced) :
    Mirrors ⟨0, 0⟩ looselike (Parser.ofTokens text stream .strict).context
      (Parser.ofTokens text' stream' .strict).context where
  options := rfl
  allowIn := rfl
  depth := rfl
  size := by
    show stream'.size = 0 + stream.size
    rw [Nat.zero_add, TokenStream.size_eq_of_unplaced hsame]
  kind p := by
    rw [Nat.zero_add]
    exact congrArg Unplaced.kind (TokenStream.get_of_unplaced hsame p)
  lexeme p := by
    rw [Nat.zero_add]
    exact congrArg Unplaced.lexeme (TokenStream.get_of_unplaced hsame p)
  newlineBefore p := by
    rw [Nat.zero_add]
    exact congrArg Unplaced.newlineBefore (TokenStream.get_of_unplaced hsame p)
  span _ _ := trivial
  text _ _ := nofun
  exact := False.elim

theorem repeats_unplaced (text text' : String) (ended : stream.Ended)
    (hsame : stream'.unplaced = stream.unplaced) :
    Repeats ⟨0, 0⟩ looselike State.start (List.map (Offset.id ⟨0, 0⟩))
      (scriptReading text stream .strict) (scriptReading text' stream' .strict) := by
  have hs : Continues ⟨0, 0⟩ looselike State.start State.start State.start :=
    ⟨rfl, SyntaxTree.displaced_empty rfl, nofun⟩
  exact Parser.repeats_budget ended (mirrors_unplaced hsame) hs (Nat.zero_le _)
    (.statements .none) rfl

/-- Two texts whose tokens differ in their places alone are both rejected, or their trees differ
in the places of their nodes alone. -/
theorem parseScript_unplaced (h : tokensOf text = .ok stream) (h' : tokensOf text' = .ok stream')
    (hsame : stream'.unplaced = stream.unplaced) :
    (parseScript text' .strict).toOption.map (fun parsed => parsed.1.unplaced) =
      (parseScript text .strict).toOption.map fun parsed => parsed.1.unplaced := by
  have hrepeats := repeats_unplaced text text' (ended_tokensOf h) hsame
  rw [parseScript_of_tokens h, parseScript_of_tokens h']
  generalize scriptReading text stream .strict = r at hrepeats
  generalize scriptReading text' stream' .strict = r' at hrepeats
  cases hrepeats with
  | error _ _ => rfl
  | @ok s s' ids hs =>
      have hscript : Continues ⟨0, 0⟩ looselike State.start
          (s.added (scriptContext text stream .strict) 0 (.script ids))
          (s'.added (scriptContext text' stream' .strict) 0 ((Node.script ids).map _)) :=
        hs.addedAt 0 0 (.script ids) trivial
      have hadded := hscript.tree
      have hroot : s'.tree.nextId = s.tree.nextId := by
        rw [hs.tree.nextId]
        simp [Offset.id]
      exact congrArg some ((hadded.withRoot _ _).unplaced_eq rfl (congrArg some hroot))

def twoStatements : TokenStream :=
  { body := #[⟨.identifier, "a", ⟨1, 1, 0⟩, false⟩, ⟨.punctuator .semicolon, ";", ⟨1, 2, 1⟩, false⟩,
      ⟨.identifier, "b", ⟨1, 3, 2⟩, false⟩]
    stop := ⟨.endOfText, "", ⟨1, 4, 3⟩, false⟩ }

def twoStatementsApart : TokenStream :=
  { body := #[⟨.identifier, "a", ⟨1, 2, 1⟩, false⟩, ⟨.punctuator .semicolon, ";", ⟨1, 7, 6⟩, false⟩,
      ⟨.identifier, "b", ⟨1, 9, 8⟩, false⟩]
    stop := ⟨.endOfText, "", ⟨1, 10, 9⟩, false⟩ }

theorem tokensOf_twoStatements : tokensOf "a;b" = .ok twoStatements := by
  cbv

theorem tokensOf_twoStatementsApart : tokensOf " a/**/; b" = .ok twoStatementsApart := by
  cbv

theorem parseScript_unplaced_twoStatements :
    tokensOf "a;b" = .ok twoStatements ∧ tokensOf " a/**/; b" = .ok twoStatementsApart ∧
      twoStatementsApart.unplaced = twoStatements.unplaced ∧
      (parseScript " a/**/; b" .strict).toOption.map (fun parsed => parsed.1.unplaced) =
        (parseScript "a;b" .strict).toOption.map fun parsed => parsed.1.unplaced :=
  ⟨tokensOf_twoStatements, tokensOf_twoStatementsApart, rfl,
    parseScript_unplaced tokensOf_twoStatements tokensOf_twoStatementsApart rfl⟩

end Grammar
end ScriptHints
