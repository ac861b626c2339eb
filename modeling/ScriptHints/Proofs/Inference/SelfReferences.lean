import ScriptHints.Proofs.Inference.Answers
import ScriptHints.Proofs.Tree.Leading

/-!
# What the guard against self-references tells

The guard compares texts up to a point, and there may be points in numbers, strings and regular
expressions as well. It tells something about the tree nevertheless, because the text of an
expression begins with its leftmost operand.
-/

namespace ScriptHints
namespace Inference

open Token Text Syntax Grammar

theorem firstSegment?_eq {source : String} (h : exists c, c ∈ source.toList ∧ c ≠ '.') :
    firstSegment? source = some (String.ofList (source.toList.takeWhile (· ≠ '.'))) := by
  rcases h with ⟨c, hmem, hc⟩
  unfold firstSegment?
  rw [if_neg]
  intro hall
  have hpoint := List.all_eq_true.mp (Bool.and_eq_true_iff.mp hall).2 c hmem
  exact hc (of_decide_eq_true hpoint)

/-- At a text that is more than points the guard stops just if the name leads it. -/
theorem mayResolve_eq_false_iff {name source : String} (hname : IsWord name.toList)
    (hsource : exists c, c ∈ source.toList ∧ c ≠ '.') :
    mayResolve name source = false ↔ Leads name.toList source.toList := by
  unfold mayResolve
  rw [leads_iff_takeWhile hname, firstSegment?_eq hsource]
  simp only [decide_eq_false_iff_not, ne_eq, not_not]
  constructor
  · intro h
    rw [← h, String.toList_ofList]
  · intro h
    rw [h, String.ofList_toList]

theorem toSource_identifier {name : String} {t : SyntaxTree} {id : NodeId}
    (h : t.node id = .ok (.identifier name)) : t.toSource id = .ok name := by
  unfold SyntaxTree.toSource SyntaxTree.fragments SyntaxTree.budget
  rw [SyntaxTree.fragmentsWithin, h]
  show Except.ok (Fragment.textOf [.lexeme name]) = .ok name
  simp [Fragment.textOf, Fragment.text]

variable {text : String} {o : Options} {tree : SyntaxTree}

/--
For every variable of a parsed tree that has an initial value, the guard stops just where the
value is the variable itself, or where its leftmost operand is the variable and an access takes
a member of it.
-/
theorem canResolveVariable_eq_false_iff (h : Parses text o tree) {id target value : NodeId}
    {name : String} (hvariable : tree.node id = .ok (.variable target (some value)))
    (htarget : tree.node target = .ok (.identifier name)) :
    exists b, canResolveVariable tree target value = .ok b ∧
      (b = false ↔ tree.node value = .ok (.identifier name) ∨
        exists leaf access member, tree.Leftmost value leaf ∧
          tree.node leaf = .ok (.identifier name) ∧ tree.BeginsWith value access ∧
          tree.node access = .ok (.propertyAccess leaf member)) := by
  rcases whole_of_parses h with ⟨stream, root, f, htokens, hwhole⟩
  have hfitted : tree.FittedParts stream := by
    intro id n hnode hvalue
    rcases fits_of_parses h htokens hnode with hfits | ⟨_, statements, rfl⟩
    · exact hfits
    · cases hvalue
  rcases fits_of_parses h htokens hvariable with ⟨⟨i, hkind, hnew⟩, hvalue⟩ | ⟨_, _, hscript⟩
  · rw [htarget] at hnew
    cases hnew
    have hname := tokensOf_identifier htokens hkind
    have hvalue := hvalue value rfl
    rcases hvalue with ⟨n, hnode, hkindOf⟩
    have hfragments : Faultless (tree.fragments 0 value) :=
      hwhole.sound.fragmentsWithin_faultless (SyntaxTree.index_lt_of_node hnode) tree.budget 0
        (Nat.lt_succ_of_lt (SyntaxTree.index_lt_of_node hnode))
    rcases hfragments with ⟨fragments, hfragments, _⟩
    refine ⟨mayResolve (stream.get i).lexeme (Fragment.textOf fragments), ?_, ?_⟩
    · unfold canResolveVariable
      rw [toSource_identifier htarget, SyntaxTree.toSource, hfragments]
      rfl
    · rcases leads_text_iff htokens hfitted hname ⟨n, hnode, hkindOf⟩ hfragments endsWord_nil with
        ⟨hsome, hleads⟩
      rw [mayResolve_eq_false_iff hname.isWord hsome,
        ← List.append_nil (Fragment.textOf fragments).toList,
        hleads]
      constructor
      · rintro (⟨hidentifier, _⟩ | ⟨leaf, access, member, hbegins, haccess, hleaf⟩)
        · exact .inl hidentifier
        · exact .inr ⟨leaf, access, member, leftmost_of_access hbegins haccess hleaf,
            hleaf, hbegins,
            haccess⟩
      · rintro (hidentifier | ⟨leaf, access, member, _, hleaf, hbegins, haccess⟩)
        · exact .inl ⟨hidentifier, .inl rfl⟩
        · exact .inr ⟨leaf, access, member, hbegins, haccess, hleaf⟩
  · cases hscript

/-- The tree of a variable whose initial value calls a member of it, with a point in a string. -/
def ownMemberTree : SyntaxTree :=
  { entries := #[⟨.identifier "a", ⟨1, 5, 1, 5⟩, some ⟨6⟩⟩,
      ⟨.identifier "a", ⟨1, 9, 1, 9⟩, some ⟨3⟩⟩,
      ⟨.identifier "b", ⟨1, 11, 1, 11⟩, some ⟨3⟩⟩,
      ⟨.propertyAccess ⟨1⟩ ⟨2⟩, ⟨1, 9, 1, 11⟩, some ⟨5⟩⟩,
      ⟨.string "." '\'', ⟨1, 13, 1, 15⟩, some ⟨5⟩⟩,
      ⟨.call ⟨3⟩ [⟨4⟩], ⟨1, 9, 1, 16⟩, some ⟨6⟩⟩,
      ⟨.variable ⟨0⟩ (some ⟨5⟩), ⟨1, 5, 1, 16⟩, some ⟨7⟩⟩,
      ⟨.variables [⟨6⟩] true, ⟨1, 1, 1, 16⟩, some ⟨8⟩⟩,
      ⟨.script [⟨7⟩], ⟨1, 1, 1, 16⟩, none⟩]
    root := some ⟨8⟩ }

theorem parseScript_ownMember :
    parseScript "var a = a.b('.')" .strict = .ok (ownMemberTree, Diagnostics.empty) := by
  cbv

theorem canResolveVariable_eq_false_iff_ownMember :
    canResolveVariable ownMemberTree ⟨0⟩ ⟨5⟩ = .ok false ∧
      exists b, canResolveVariable ownMemberTree ⟨0⟩ ⟨5⟩ = .ok b ∧
        (b = false ↔ ownMemberTree.node ⟨5⟩ = .ok (.identifier "a") ∨
          exists leaf access member, ownMemberTree.Leftmost ⟨5⟩ leaf ∧
            ownMemberTree.node leaf = .ok (.identifier "a") ∧ ownMemberTree.BeginsWith ⟨5⟩ access ∧
            ownMemberTree.node access = .ok (.propertyAccess leaf member)) :=
  ⟨by cbv, canResolveVariable_eq_false_iff (.inl ⟨_, parseScript_ownMember⟩)
    (show ownMemberTree.node ⟨6⟩ = .ok (.variable ⟨0⟩ (some ⟨5⟩)) from rfl) rfl⟩

end Inference
end ScriptHints
