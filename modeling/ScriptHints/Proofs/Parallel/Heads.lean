import ScriptHints.Inference.EnteredText
import ScriptHints.Proofs.Parallel.Follows
import ScriptHints.Proofs.Reader.Heads
import ScriptHints.Proofs.Recovery.Tiling
import ScriptHints.Proofs.Tree.StatementsGrown

/-!
# Heads in other texts

What has been read up to the closing parenthesis of a head is read in any other text with the
same tokens up to there. During recovery the body behind it is always read.
-/

namespace ScriptHints
namespace Grammar

open Syntax Token

/-!
## What is read of a head
-/

section

variable {reach : Strategy} (hreach : reach.Growing) (c : Context) (ended : c.stream.Ended)
include hreach ended

theorem grows_middleRule (s : State) :
    Grows c s (middleRule reach c) s fun condition f _ => Rooted 0 condition.toList f := by
  unfold middleRule
  apply Grows.expect (.start ended s)
  intro s₁ hgrown₁
  apply Grows.inside hgrown₁ (grows_clauseRule hreach c ended .semicolon s₁)
  intro condition f s₂ hgrown₂ hcondition
  apply Grows.expect hgrown₂
  intro s₃ hgrown₃
  exact .pure hgrown₃ hcondition

theorem grows_innerRule (headed : Headed) (s : State)
    (hquiet : (c.next s).kind.isOperand = false) :
    Grows c s (innerRule reach headed c) s fun head f _ => Rooted 0 head.ids f := by
  unfold innerRule
  apply Grows.advance (.start ended s) hquiet
  intro hgrown
  apply Grows.expect hgrown
  intro s₁ hgrown₁
  cases headed with
  | ifElse | whileLoop =>
      simp only [map_eq_pure_bind]
      apply hreach.inside hgrown₁ .expression rfl c.allowingIn rfl
      intro condition f s₂ hgrown₂ hcondition
      exact .pure hgrown₂ hcondition.rooted
  | forLoop =>
      unfold clausesRule
      simp only [map_eq_pure_bind, bind_assoc, pure_bind]
      apply Grows.inside hgrown₁ (grows_forInitializerRule hreach c ended s₁)
      intro initializer f s₂ hgrown₂ hinitializer
      apply Grows.inside hgrown₂ (grows_middleRule hreach c ended s₂)
      intro condition g s₃ hgrown₃ hcondition
      apply Grows.inside hgrown₃ (grows_clauseRule hreach c ended .closeParen s₃)
      intro step h s₄ hgrown₄ hstep
      exact .pure hgrown₄ ((hinitializer.append hcondition).append hstep)

theorem grows_headRule (headed : Headed) (s : State)
    (hquiet : (c.next s).kind.isOperand = false) :
    Grows c s (headRule reach headed c) s fun head f _ => Rooted 0 head.ids f := by
  unfold headRule
  apply Grows.bind (grows_innerRule hreach c ended headed s hquiet)
  intro head f s₁ hgrown₁ hhead
  apply Grows.closing hgrown₁
  intro s₂ hgrown₂
  exact .pure hgrown₂ hhead

end

/-!
## Heads in other texts
-/

section

variable {d : Offset} {σ : Scope} {c c' : Context} (h : σ.link c c') (plain : σ.Plain)
include h plain

theorem parallel_clausesRest (initializer : Option NodeId) (k : Facts) :
    Parallel d σ (Prod.map (Option.map d.id) (Option.map d.id)) k
      (fun reach => middleRule reach c >>= fun condition => pure (initializer, condition))
      (fun reach => middleRule reach c' >>= fun condition =>
        pure (initializer.map d.id, condition)) .ended := by
  unfold middleRule
  simp only [bind_assoc, pure_bind]
  refine .bind (parallel_expect h .semicolon .endOfForInitializer k rfl) fun _ => ?_
  refine parallel_clauseRule h plain .semicolon rfl fun _ condition => ?_
  refine .bind (parallel_expect h .semicolon .endOfForCondition _ rfl) fun _ => ?_
  exact .loose (.pure _ _ (initializer, condition)) (Facts.behind_covers_ended _)

theorem parallel_clausesRule (k : Facts) :
    Parallel d σ (Prod.map (Option.map d.id) (Option.map d.id)) k
      (fun reach => clausesRule reach c) (fun reach => clausesRule reach c') .ended := by
  unfold clausesRule forInitializerRule
  simp only [peekKind_bind_eq, bind_assoc]
  refine .seek h rfl fun t t' halike k' _ => ?_
  rw [halike.kind]
  split
  next =>
    simp only [pure_bind]
    exact parallel_clausesRest h plain none _
  next hvar =>
    simp only [bind_map_left]
    refine .bind (parallel_loopDeclaration h plain (congrArg some hvar)) fun declaration => ?_
    exact parallel_clausesRest h plain (some declaration) _
  next =>
    simp only [bind_map_left]
    refine .bind (.goal .expression (σ.forbiddingIn h) (plain.reaches _ rfl) rfl rfl)
      fun initializer => ?_
    exact parallel_clausesRest h plain (some initializer) _

end

section

variable {d : Offset} {stop : Nat} {stream stream' : TokenStream} {spans : Span → Span → Prop}
  {old : State} (hspans : Spanning d stream stream' spans)
  (ended : stream'.Ended) {reach reach' : Strategy} (hfacts : reach'.KeepsFacts d stream')
  (hbarred : reach'.Barred d stream')
  (hreach : Strategy.Follows d stop stream stream' spans old reach reach')
  {c c' : Context} (hc : Narrows d stop stream stream' c c') (hallow : c'.allowIn = c.allowIn)
  (hkind : (stream'.get (d.tokens + stop)).kind = (stream.get stop).kind)
  (htight : TightAt d stop stream stream')

section

include hspans ended hfacts hbarred hreach htight

/-- What does not end with a statement does not halt, where both contexts agree on `in`. -/
theorem Parallel.followed {α β : Type} {u : α → β} {k l : Facts} {x : Attempt α} {x' : Attempt β}
    (h : Parallel d (Scope.narrows d stop stream stream' False) u k x x' l) (hl : l.closed = true)
    {start : Nat} {s s' : State} (hk : k.Holds d stream' start s')
    (hs : Continues d (.loose spans) old s s') :
    FollowedBy d stop spans old u (fun _ => False) (x reach s) (x' reach' s') := by
  intro b s₁' heq hstop
  rcases h.follows hspans ended hfacts hbarred hreach start (fun _ => htight) hk hs b s₁'
    heq hstop with
    hfollowed | hhalts
  · exact .inl hfollowed
  · cases hhalts with
    | atIn hdiffer _ _ _ => exact hdiffer.elim
    | atStop hclosed _ _ =>
        rw [hl] at hclosed
        cases hclosed

end

omit hreach hkind htight in
include hfacts hc in
theorem onward_clauseRule {mark : Punctuator} {start : Nat} {k : Facts} {s' s₁' : State}
    (hk : k.Holds d stream' start s') {clause : Option NodeId}
    (hread : clauseRule reach' mark c' s' = .ok clause s₁') : s'.position ≤ s₁'.position := by
  unfold clauseRule at hread
  rw [bind_peekKind] at hread
  split at hread
  next =>
    cases hread
    exact Nat.le_refl _
  next =>
    rcases map_ok_iff.mp hread with ⟨clause, hclause, _⟩
    exact (hfacts .expression 0 c'.allowingIn s' hc.allowingIn.strict
      (Nat.le_trans hk.front hk.onward) hk.bounded hk.nodes clause s₁' hclause).2.2

include hfacts hreach hc hkind htight in
theorem follows_clauseRule (mark : Punctuator) {start : Nat} {k : Facts} {s s' : State}
    (hk : k.Holds d stream' start s') (hs : Continues d (.loose spans) old s s') :
    FollowedBy d stop spans old (Option.map d.id) (fun _ => False) (clauseRule reach mark c s)
      (clauseRule reach' mark c' s') := by
  intro b s₁' heq hstop
  have hposition := hs.position
  have honward := onward_clauseRule hfacts hc hk heq
  have hsame : (c'.next s').kind = (c.next s).kind := by
    rcases Nat.lt_or_eq_of_le (show s.position ≤ stop by omega) with hlt | hat
    · exact hs.kind_next_of_lt hc hlt
    · rw [hs.next'_eq hc, Context.next, hc.stream, hat]
      exact hkind
  unfold clauseRule at heq ⊢
  rw [bind_peekKind] at heq ⊢
  split at heq
  next hmark =>
    cases heq
    rw [if_pos (hsame.symm.trans hmark)]
    exact .inl ⟨none, s, rfl, rfl, hs⟩
  next hmark =>
    rcases map_ok_iff.mp heq with ⟨clause, hclause, rfl⟩
    rw [if_neg fun hother => hmark (hsame.trans hother)]
    rcases hreach .expression 0 c.allowingIn c'.allowingIn s s' hc.allowingIn hk.bounded hs
      (by intro htail; cases htail) (fun _ => htight) clause s₁' hclause hstop with
      ⟨a, s₁, ha, rfl, hs₁⟩ | hhalts
    · exact .inl ⟨some a, s₁, map_ok_iff.mpr ⟨a, ha, rfl⟩, rfl, hs₁⟩
    · cases hhalts with
      | atIn hdiffer _ _ _ => exact absurd rfl hdiffer
      | atStop hclosed _ _ => cases hclosed

section

include hspans ended hfacts hbarred hreach hc hallow hkind htight

/-- In front of its closing parenthesis a head is read in both texts. -/
theorem follows_innerRule (headed : Headed) {start : Nat} {k : Facts} {s s' : State}
    (hword : k.next = some (.keyword headed.word)) (hk : k.Holds d stream' start s')
    (hs : Continues d (.loose spans) old s s') :
    FollowedBy d stop spans old (Head.map d.id) (fun _ => False) (innerRule reach headed c s)
      (innerRule reach' headed c' s') := by
  have hlink : (Scope.narrows d stop stream stream' False).link c c' :=
    ⟨hc, fun hdiffer => hdiffer hallow⟩
  have hplain := (Scope.full_narrows d stop stream stream' False).plain
  have hopening {α β : Type} {u : α → β} {x : Attempt α} {x' : Attempt β} {l : Facts}
      (hx : forall k, Parallel d (Scope.narrows d stop stream stream' False) u k x x' l) :
      Parallel d (Scope.narrows d stop stream stream' False) u k
        (fun reach => advance c >>= fun _ => expect c .openParen headed.opening >>=
          fun _ => x reach)
        (fun reach => advance c' >>= fun _ => expect c' .openParen headed.opening >>= fun _ =>
          x' reach) l := by
    refine .bind (.step hlink hword nofun ?_ rfl) fun _ => ?_
    · cases headed <;> exact nofun
    · exact .bind (parallel_expect hlink .openParen headed.opening _ rfl) fun _ => hx _
  have hcondition (head : NodeId → Head)
      (hhead : forall id, Head.map d.id (head id) = head (d.id id)) (k : Facts) :
      Parallel d (Scope.narrows d stop stream stream' False) (Head.map d.id) k
        (fun reach => head <$> reach .expression c.allowingIn)
        (fun reach => head <$> reach .expression c'.allowingIn) .read :=
    .map (.goal .expression ((Scope.narrows d stop stream stream' False).allowingIn hlink)
      (hplain.reaches _ rfl) rfl rfl) hhead
  unfold innerRule
  cases headed with
  | ifElse =>
      exact (hopening (hcondition .ifElse fun _ => rfl)).followed hspans ended hfacts hbarred
        hreach htight rfl hk hs
  | whileLoop =>
      exact (hopening (hcondition .whileLoop fun _ => rfl)).followed hspans ended hfacts
        hbarred hreach htight rfl hk hs
  | forLoop =>
      -- The last clause is read or not, so that it is no parallel reading.
      have hclauses := hopening fun k => parallel_clausesRule (d := d) hlink hplain k
      have hstarts (p : Nat) (hp : d.tokens ≤ p) :
          exists first, (Scope.narrows d stop stream stream' False).starts first p :=
        ⟨p - d.tokens, (Nat.add_sub_cancel' hp).symm⟩
      have hkeeps := hclauses.keeps ended (fun _ _ h => h.1.strict) hstarts hfacts start s' hk
      simp only [← bind_assoc]
      simp only [← bind_assoc] at hclauses hkeeps
      refine (hclauses.followed hspans ended hfacts hbarred hreach htight rfl hk hs).bind ?_
        (fun _ _ _ _ _ _ hfalse => hfalse.elim) fun clauses s₁ s₁' hread hs₁ => ?_
      · intro clauses s₁' head s₂' hread hlast
        rcases map_ok_iff.mp hlast with ⟨step, hstep, _⟩
        exact onward_clauseRule hfacts hc (hkeeps clauses s₁' hread).2.1 hstep
      · intro head s₂' hlast hstop
        rcases map_ok_iff.mp hlast with ⟨step', hstep', rfl⟩
        rcases follows_clauseRule hfacts hreach hc hkind htight .closeParen
          (hkeeps _ s₁' hread).2.1 hs₁
          step' s₂' hstep' hstop with ⟨step, s₂, hstep, rfl, hs₂⟩ | hfalse
        · exact .inl ⟨_, s₂, map_ok_iff.mpr ⟨step, hstep, rfl⟩, rfl, hs₂⟩
        · exact hfalse.elim

/-- A head that ends with the token at the stop is read in both texts. -/
theorem follows_headRule (ended₁ : stream.Ended) (headed : Headed) {s s' s₁' : State}
    (hword : (c'.next s').kind = .keyword headed.word) (hbound : s'.position ≤ stream'.size)
    (hs : Continues d (.loose spans) old s s') {head' : Head}
    (hread : headRule reach' headed c' s' = .ok head' s₁')
    (hend : s₁'.position = d.tokens + stop + 1) :
    exists head s₁, headRule reach headed c s = .ok head s₁ ∧ head' = head.map d.id ∧
      Continues d (.loose spans) old s₁ s₁' := by
  have hnext := hc.strict.next_eq
  have hheld : (Facts.start.seeing (.keyword headed.word)).Holds d stream' s'.position s' :=
    .here hs.front_le hbound hs.nodes_le rfl nofun (by
      rintro _ ⟨rfl⟩
      rw [← hnext, hword])
  unfold headRule at hread ⊢
  rcases bind_ok_iff.mp hread with ⟨_, s₂', hfront', hclosing⟩
  rcases bind_ok_iff.mp hclosing with ⟨_, s₃', hclose, hreturn⟩
  cases hreturn
  rw [expectClosing_eq_expect hc.strict.recover] at hclose
  rcases kind_of_expect_ok hclose with ⟨hmark, rfl⟩
  have hmoves := moved_position (c := c') (by rw [hc.strict.stream]; exact ended)
    (by rw [hmark]; exact nofun)
  have hstop : s₂'.position = d.tokens + stop := by omega
  rcases follows_innerRule hspans ended hfacts hbarred hreach hc hallow hkind htight headed
    rfl hheld hs
    head' s₂' hfront' (Nat.le_of_eq hstop) with ⟨head, s₂, hhead, rfl, hs₂⟩ | hfalse
  · have hposition := hs₂.position
    have hmark₁ : (c.next s₂).kind = .punctuator .closeParen := by
      rw [Context.next, hc.stream, show s₂.position = stop by omega, ← hkind, ← hstop, ← hnext]
      exact hmark
    have hmoves₁ := moved_of_kind_ne (c := c) (by rw [hc.stream]; exact ended₁)
      (by rw [hmark₁]; exact nofun)
    refine ⟨head, s₂.moved c, ?_, rfl, ?_⟩
    · rw [bind_of_ok hhead, bind_of_ok]
      · rfl
      · rw [expectClosing_eq_expect hc.recover, expect_eq, if_pos hmark₁]
    · rw [hmoves₁, moved_of_kind_ne (c := c') (by rw [hc.strict.stream]; exact ended)
        (by rw [hmark]; exact nofun)]
      exact { hs₂ with
        position := congrArg (· + 1) hposition
        tree := hs₂.tree }
  · exact hfalse.elim

end

end

/-!
## Bodies
-/

/-- During recovery a body is always read, and the statement wants a hint for a part of its head. -/
theorem bodyRule_ok (budget : Nat) {c : Context} (hrecover : c.options.recover = true) (start : Nat)
    (head : Head) (s : State) :
    exists id s' node, bodyRule (grammar (budget + 1)) start c head s = .ok id s' ∧
      s'.tree.node id = .ok node ∧ Inference.relevantPart id node = head.part := by
  have hbranch (s : State) : exists id s', grammar (budget + 1) .branch c s = .ok id s' := by
    rcases branchRule_ok hrecover (spans_statement budget c) s with ⟨id, s', hread, _⟩
    exact ⟨id, s', hread⟩
  have hadd (node : Node) (s : State) :
      exists id s' node', addSince c start node s = .ok id s' ∧ s'.tree.node id = .ok node' ∧
        Inference.relevantPart id node' = Inference.relevantPart id node :=
    ⟨_, _, node, addSince_eq c start node s, s.tree.node_add_nextId node _, rfl⟩
  rcases hbranch s with ⟨body, s₁, hbody⟩
  cases head with
  | ifElse condition =>
      have hsteps : bodyRule (grammar (budget + 1)) start c (.ifElse condition) s =
          (accept c (.keyword .elseWord) >>= fun hasElse =>
            if hasElse then
              some <$> grammar (budget + 1) .branch c >>= fun elseBranch =>
                addSince c start (.ifElse condition body elseBranch)
            else addSince c start (.ifElse condition body none)) s₁ := bind_of_ok hbody
      rw [hsteps, bind_accept]
      split
      next =>
        rcases hbranch (s₁.moved c) with ⟨elseBranch, s₂, helse⟩
        rw [if_pos rfl, bind_of_ok (map_ok_iff.mpr ⟨elseBranch, helse, rfl⟩)]
        exact hadd (.ifElse condition body (some elseBranch)) s₂
      next => exact hadd (.ifElse condition body none) s₁
  | whileLoop condition =>
      have hsteps : bodyRule (grammar (budget + 1)) start c (.whileLoop condition) s =
          addSince c start (.whileLoop condition body) s₁ := bind_of_ok hbody
      rw [hsteps]
      exact hadd (.whileLoop condition body) s₁
  | forLoop initializer condition step =>
      have hsteps : bodyRule (grammar (budget + 1)) start c
        (.forLoop initializer condition step) s =
          addSince c start (.forLoop initializer condition step body) s₁ := bind_of_ok hbody
      rw [hsteps]
      exact hadd (.forLoop initializer condition step body) s₁

end Grammar
end ScriptHints
