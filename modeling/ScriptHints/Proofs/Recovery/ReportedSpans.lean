import ScriptHints.Proofs.Reader.Unbroken
import ScriptHints.Proofs.Recovery.Script

/-!
# What reports are about

Every diagnostic of a reading is about one token of the text: the one that begins what was
skipped, or the one, mostly the end of the text, in whose place something else was expected.
-/

namespace ScriptHints
namespace Grammar

open Syntax Token

def AboutTokens (stream : TokenStream) (ds : Diagnostics) : Prop :=
  forall d, d ∈ ds.toList -> exists t, t ∈ stream.toList ∧ d.span = some (Span.ofToken t)

section

variable {stream : TokenStream}

theorem get_mem_toList (stream : TokenStream) (position : Nat) :
    stream.get position ∈ stream.toList := by
  unfold TokenStream.get TokenStream.toList
  cases hget : stream.body[position]? with
  | none => exact List.mem_append_right _ (List.mem_singleton.mpr rfl)
  | some t => exact List.mem_append_left _ (Array.mem_toList_iff.mpr (Array.mem_of_getElem? hget))

theorem aboutTokens_empty (stream : TokenStream) : AboutTokens stream Diagnostics.empty :=
  nofun

theorem AboutTokens.report {ds : Diagnostics} (h : AboutTokens stream ds) (level : Level)
    (message : String) (position : Nat) :
    AboutTokens stream
      (ds.report ⟨level, message, some (Span.ofToken (stream.get position))⟩) := by
  intro d hd
  rw [Diagnostics.toList_report] at hd
  rcases List.mem_append.mp hd with hd | hd
  · exact h d hd
  · rw [List.mem_singleton.mp hd]
    exact ⟨_, get_mem_toList stream position, rfl⟩

theorem unbroken_aboutTokens (stream : TokenStream) (o : Options) :
    Unbroken stream o fun s => AboutTokens stream s.diagnostics where
  placed _ _ hs := hs
  added _ _ _ _ _ hs := hs
  skipped _ _ _ _ _ hs := hs
  reported level message position _ _ hs := hs.report level message position

end

theorem parseScript_aboutTokens {text : String} {stream : TokenStream}
    (htokens : tokensOf text = .ok stream) {o : Options} {tree : SyntaxTree} {ds : Diagnostics}
    (h : parseScript text o = .ok (tree, ds)) : AboutTokens stream ds := by
  have hreading : AboutTokens stream (finalState (scriptReading text stream o)).diagnostics :=
    upholds_grammar (unbroken_aboutTokens stream o) (ended_tokensOf htokens)
      (scriptContext text stream o).budget (.statements .none) (scriptContext text stream o)
      State.start rfl (Nat.zero_le _) (aboutTokens_empty stream)
  rw [parseScript_of_tokens htokens] at h
  cases heq : scriptReading text stream o with
  | ok ids s =>
      rw [heq] at h hreading
      cases h
      exact hreading
  | error e s =>
      rw [heq] at h
      cases h

end Grammar
end ScriptHints
