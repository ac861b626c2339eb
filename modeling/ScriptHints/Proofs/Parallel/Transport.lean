import ScriptHints.Proofs.Parallel.Statements

/-!
# Readings behind other tokens

A context whose tokens go on in the same way behind some others mirrors the context that has
only these tokens. Reading in the one and in the other gives the same results and errors, up
to the offset of positions and ids. What stood in the tree and among the diagnostics before
is left as it is.
-/

namespace ScriptHints
namespace Grammar

open Syntax Token

def State.offset (s : State) : Offset :=
  ⟨s.position, s.tree.size⟩

/-!
## Mirrored contexts, states and outcomes
-/

/-- How exactly the second context repeats the first one. -/
structure Likeness where
  /-- Tokens are the same with their places, and so are reports. -/
  exact : Prop
  spans : Span → Span → Prop

/-- The nodes are compared, and their places as far as they are asked for. -/
def Likeness.loose (spans : Span → Span → Prop) : Likeness where
  exact := False
  spans := spans

def looselike : Likeness :=
  .loose fun _ _ => True

/-- The tokens of the second context behind the offset are those of the first one. -/
structure Mirrors (d : Offset) (ρ : Likeness) (c c' : Context) : Prop where
  options : c'.options = c.options
  allowIn : c'.allowIn = c.allowIn
  depth : c'.depth = c.depth
  size : c'.stream.size = d.tokens + c.stream.size
  kind (p : Nat) : (c'.stream.get (d.tokens + p)).kind = (c.stream.get p).kind
  lexeme (p : Nat) : (c'.stream.get (d.tokens + p)).lexeme = (c.stream.get p).lexeme
  newlineBefore (p : Nat) :
    (c'.stream.get (d.tokens + p)).newlineBefore = (c.stream.get p).newlineBefore
  span (first stop : Nat) :
    ρ.spans (c.spanOf first stop) (c'.spanOf (d.tokens + first) (d.tokens + stop))
  /-- Only during recovery a text is looked at. -/
  text (first stop : Nat) : c.options.recover = true ->
    c'.textOf (d.tokens + first) (d.tokens + stop) = c.textOf first stop
  exact : ρ.exact -> forall p, c'.stream.get (d.tokens + p) = c.stream.get p

namespace Mirrors

variable {d : Offset} {ρ : Likeness} {c c' : Context}

theorem allowingIn (h : Mirrors d ρ c c') : Mirrors d ρ c.allowingIn c'.allowingIn :=
  { h with allowIn := rfl }

theorem forbiddingIn (h : Mirrors d ρ c c') : Mirrors d ρ c.forbiddingIn c'.forbiddingIn :=
  { h with allowIn := rfl }

theorem deeper (h : Mirrors d ρ c c') : Mirrors d ρ c.deeper c'.deeper :=
  { h with depth := congrArg (· + 1) h.depth }

end Mirrors

/-!
### Skipping
-/

theorem skipped_congr (opened : Nat) (atStart : Bool) {tokens tokens' : List Token}
    (h : tokens'.map (fun t => (t.kind, t.newlineBefore)) =
      tokens.map fun t => (t.kind, t.newlineBefore)) :
    skipped opened atStart tokens' = skipped opened atStart tokens := by
  induction tokens generalizing opened atStart tokens' with
  | nil =>
      rw [List.map_eq_nil_iff.mp h]
  | cons t tokens ih =>
      rcases List.map_eq_cons_iff.mp h with ⟨t', more, rfl, hhead, htail⟩
      have hsame : skipAt opened atStart t' = skipAt opened atStart t := by
        unfold skipAt
        rw [(Prod.mk.inj hhead).1, (Prod.mk.inj hhead).2]
      rw [skipped_cons, skipped_cons, hsame]
      congr 1
      funext opened'
      exact ih opened' false htail

theorem Mirrors.skipStop {d : Offset} {ρ : Likeness} {c c' : Context} (h : Mirrors d ρ c c')
    (start : Nat) : c'.skipStop (d.tokens + start) = d.tokens + c.skipStop start := by
  have hsize : c'.stream.body.size = d.tokens + c.stream.body.size := h.size
  have hkeys : (c'.stream.body.toList.drop (d.tokens + start)).map
        (fun t => (t.kind, t.newlineBefore)) =
      (c.stream.body.toList.drop start).map fun t => (t.kind, t.newlineBefore) := by
    apply List.ext_getElem
    · simp only [List.length_map, List.length_drop, Array.length_toList]
      omega
    · intro i hi' hi
      simp only [List.length_map, List.length_drop, Array.length_toList] at hi' hi
      have hget : c.stream.get (start + i) = c.stream.body[start + i] := by
        rw [TokenStream.get, Array.getElem?_eq_getElem, Option.getD_some]
      have hget' : c'.stream.get (d.tokens + (start + i)) =
          c'.stream.body[d.tokens + (start + i)] := by
        rw [TokenStream.get, Array.getElem?_eq_getElem, Option.getD_some]
      have hkind := h.kind (start + i)
      have hline := h.newlineBefore (start + i)
      rw [hget, hget'] at hkind hline
      simp only [List.getElem_map, List.getElem_drop, Array.getElem_toList, Nat.add_assoc]
      rw [hkind, hline]
  unfold Context.skipStop
  rw [skipped_congr 0 true hkeys, Nat.add_assoc]

structure Continues (d : Offset) (ρ : Likeness) (old s s' : State) : Prop where
  position : s'.position = d.tokens + s.position
  tree : s.tree.Displaced d ρ.spans old.tree s'.tree
  diagnostics : ρ.exact -> s'.diagnostics.toList = old.diagnostics.toList ++ s.diagnostics.toList

inductive Repeats (d : Offset) (ρ : Likeness) (old : State) {α β : Type} (v : α → β) :
    EStateM.Result SyntaxError State α → EStateM.Result SyntaxError State β → Prop where
  | ok {s s' : State} (a : α) :
      Continues d ρ old s s' ->
      Repeats d ρ old v (.ok a s) (.ok (v a) s')
  | error {s s' : State} {e e' : SyntaxError} :
      Continues d ρ old s s' ->
      (ρ.exact -> e' = e) ->
      Repeats d ρ old v (.error e s) (.error e' s')

section

variable {d : Offset} {ρ : Likeness} {c c' : Context} {old s s' : State}

/-!
## Steps
-/

namespace Continues

variable (h : Continues d ρ old s s') (hc : Mirrors d ρ c c')
include h hc

theorem kind_next : (c'.next s').kind = (c.next s).kind := by
  unfold Context.next
  rw [h.position]
  exact hc.kind s.position

theorem lexeme_next : (c'.next s').lexeme = (c.next s).lexeme := by
  unfold Context.next
  rw [h.position]
  exact hc.lexeme s.position

theorem alike_next (k : Facts) : k.Alike (c.next s) (c'.next s') where
  kind := h.kind_next hc
  lexeme := h.lexeme_next hc
  newlineBefore _ := by
    unfold Context.next
    rw [h.position]
    exact hc.newlineBefore s.position

theorem next_eq (hexact : ρ.exact) : c'.next s' = c.next s := by
  unfold Context.next
  rw [h.position]
  exact hc.exact hexact s.position

theorem error_eq (fault : SyntaxFault) (hexact : ρ.exact) :
    (⟨fault, c'.next s'⟩ : SyntaxError) = ⟨fault, c.next s⟩ := by
  rw [h.next_eq hc hexact]

theorem moved : Continues d ρ old (s.moved c) (s'.moved c') := by
  have hiff : s'.position < c'.stream.size ↔ s.position < c.stream.size := by
    rw [h.position, hc.size]
    exact Nat.add_lt_add_iff_left
  unfold State.moved
  by_cases hlt : s.position < c.stream.size
  · rw [if_pos hlt, if_pos (hiff.mpr hlt)]
    exact { h with
      position := congrArg (· + 1) h.position
      tree := h.tree }
  · rw [if_neg hlt, if_neg fun hlt' => hlt (hiff.mp hlt')]
    exact h

omit hc in
theorem addedAt (start start' : Nat) (node : Node)
    (hspan : ρ.spans (c.spanOf start s.position) (c'.spanOf start' s'.position)) :
    Continues d ρ old (s.added c start node) (s'.added c' start' (node.map d.id)) where
  position := h.position
  tree := h.tree.add node hspan
  diagnostics := h.diagnostics

theorem added (start : Nat) (node : Node) :
    Continues d ρ old (s.added c start node) (s'.added c' (d.tokens + start) (node.map d.id)) := by
  apply h.addedAt
  rw [h.position]
  exact hc.span start s.position

omit hc in
theorem reported (o : Options) {report report' : Diagnostic} (hsame : ρ.exact -> report' = report) :
    Continues d ρ old (if o.report then s.reported report else s)
      (if o.report then s'.reported report' else s') := by
  cases o.report with
  | false => exact h
  | true =>
      exact { h with
        position := h.position
        tree := h.tree
        diagnostics := by
          intro hexact
          show (s'.diagnostics.report report').toList = _ ++ (s.diagnostics.report report).toList
          rw [Diagnostics.toList_report, Diagnostics.toList_report, h.diagnostics hexact,
            hsame hexact, List.append_assoc] }

theorem expect (mark : Punctuator) (what : Expectation) :
    Repeats d ρ old id (Grammar.expect c mark what s) (Grammar.expect c' mark what s') := by
  rw [expect_eq, expect_eq, h.kind_next hc]
  split
  next => exact .ok () (h.moved hc)
  next => exact .error h (h.error_eq hc _)

theorem addSince (start : Nat) (node : Node) :
    Repeats d ρ old d.id (Grammar.addSince c start node s)
      (Grammar.addSince c' (d.tokens + start) (node.map d.id) s') := by
  rw [addSince_eq, addSince_eq, h.tree.nextId]
  exact .ok _ (h.added hc start node)

theorem ending (ending : Ending) :
    Repeats d ρ old id (ending.read c s) (ending.read c' s') := by
  have halike := h.alike_next hc .ended
  cases ending with
  | required what =>
      have hgrants : Grants (c'.next s') ↔ Grants (c.next s) :=
        halike.allows_iff rfl (.required what)
      show Repeats d ρ old id (endStatement c what s) (endStatement c' what s')
      rw [endStatement_eq, endStatement_eq, halike.kind]
      simp only [hgrants]
      split
      next => exact .ok () (h.moved hc)
      next =>
        split
        next => exact .ok () h
        next => exact .error h (h.error_eq hc _)
  | optional =>
      rw [optional_read_eq, optional_read_eq, halike.kind]
      split
      next => exact .ok () (h.moved hc)
      next => exact .ok () h

theorem newName (what : Expectation) :
    Repeats d ρ old d.id (Grammar.newName c what s) (Grammar.newName c' what s') := by
  rw [newName_eq, newName_eq, h.kind_next hc, h.lexeme_next hc, h.tree.nextId, h.position]
  split
  next => exact .ok _ ((h.moved hc).added hc s.position _)
  next => exact .error h (h.error_eq hc _)

theorem warnClosedByEnd (what : Expectation) :
    Repeats d ρ old id (Grammar.warnClosedByEnd c what s) (Grammar.warnClosedByEnd c' what s') := by
  rw [warnClosedByEnd_eq, warnClosedByEnd_eq, hc.options]
  refine .ok () (h.reported c.options ?_)
  intro hexact
  rw [h.next_eq hc hexact]

theorem missingStatementRule :
    Repeats d ρ old d.id (Grammar.missingStatementRule c s)
    (Grammar.missingStatementRule c' s') := by
  rw [missingStatementRule_eq, missingStatementRule_eq, hc.options, h.position]
  refine Continues.addSince (h.reported c.options ?_) hc s.position .empty
  intro hexact
  rw [h.next_eq hc hexact]

theorem expectClosing (mark : Punctuator) (what : Expectation) :
    Repeats d ρ old id (Grammar.expectClosing c mark what s)
      (Grammar.expectClosing c' mark what s') := by
  rw [expectClosing_eq, expectClosing_eq, h.kind_next hc, hc.options]
  split
  next => exact h.warnClosedByEnd hc what
  next => exact h.expect hc mark what

end Continues

theorem Repeats.bind {α β γ δ : Type} {u : α → β} {v : γ → δ} {x : Reader α} {x' : Reader β}
    {f : α → Reader γ} {f' : β → Reader δ} (hx : Repeats d ρ old u (x s) (x' s'))
    (hf : forall a s₁ s₁', Continues d ρ old s₁ s₁' ->
      Repeats d ρ old v (f a s₁) (f' (u a) s₁')) :
    Repeats d ρ old v ((x >>= f) s) ((x' >>= f') s') := by
  cases heq : x s with
  | ok a s₁ =>
      cases heq' : x' s' with
      | ok b s₁' =>
          rw [heq, heq'] at hx
          rw [bind_of_ok heq, bind_of_ok heq']
          cases hx with
          | ok a h => exact hf a s₁ s₁' h
      | error e' s₁' =>
          rw [heq, heq'] at hx
          cases hx
  | error e s₁ =>
      cases heq' : x' s' with
      | ok b s₁' =>
          rw [heq, heq'] at hx
          cases hx
      | error e' s₁' =>
          rw [heq, heq'] at hx
          rw [bind_of_error heq, bind_of_error heq']
          cases hx with
          | error h he => exact .error h he

end

/-!
## Parallel readings repeat each other
-/

def Strategy.Repeats (d : Offset) (ρ : Likeness) (old : State) (reach reach' : Strategy) : Prop :=
  forall (goal : Goal) (start' : Nat) (c c' : Context) (s s' : State), Mirrors d ρ c c' ->
    Continues d ρ old s s' -> (goal.isTail = true -> start' = d.tokens + goal.start) ->
      Grammar.Repeats d ρ old (goal.placedResult d start') (reach goal c s)
        (reach' (goal.placed d start') c' s')

def Scope.mirrors (d : Offset) (ρ : Likeness) : Scope where
  link := Mirrors d ρ
  allowingIn := Mirrors.allowingIn
  forbiddingIn := Mirrors.forbiddingIn
  deeper := Mirrors.deeper
  starts start start' := start' = d.tokens + start
  adds _ := True
  reaches goal := goal.isOperation = false
  noOperation _ h := h

theorem Scope.full_mirrors (d : Offset) (ρ : Likeness) : (Scope.mirrors d ρ).Full where
  adds _ := trivial
  reaches _ h := h

section

variable {d : Offset} {ρ : Likeness} {old : State} {reach reach' : Strategy}

theorem Parallel.repeats {α β : Type} {v : α → β} {k l : Facts} {x : Attempt α} {x' : Attempt β}
    (h : Parallel d (Scope.mirrors d ρ) v k x x' l) (hreach : reach.Repeats d ρ old reach')
    (s s' : State) (hs : Continues d ρ old s s') :
    Repeats d ρ old v (x reach s) (x' reach' s') := by
  induction h generalizing s s' with
  | pure v k a => exact .ok a hs
  | bind _ _ ihx ihf => exact (ihx s s' hs).bind fun a s₁ s₁' h₁ => ihf a s₁ s₁' h₁
  | weaken _ _ _ ih => exact ih s s' hs
  | @position _ _ v k l f f' _ ih =>
      show Repeats d ρ old v (f s.position reach s) (f' s'.position reach' s')
      exact ih s.position s'.position hs.position s s' hs
  | @look _ _ v k l m f f' c c' stays hc _ _ _ _ ihstay ihread =>
      show Repeats d ρ old v (f (c.next s) reach s) (f' (c'.next s') reach' s')
      have halike := hs.alike_next hc k
      cases hstays : stays (c'.next s') with
      | true => exact ihstay _ _ hstays (.alike halike) s s' hs
      | false => exact ihread _ _ hstays halike k (.refl k) s s' hs
  | advance c c' kind hc _ _ _ _ => exact .ok () (hs.moved hc)
  | add k c c' start _ node hc hstart _ _ =>
      rw [hstart]
      exact hs.addSince hc start node
  | @finish _ _ _ k m front front' c c' ending node node' hc _ _ hnode _ _ _ _ _ ih =>
      show Repeats d ρ old d.id (endedBy c ending node (front reach) s)
        (endedBy c' ending node' (front' reach') s')
      unfold endedBy
      rw [bind_position, bind_position]
      refine (ih s s' hs).bind fun parts s₁ s₁' h₁ => ?_
      refine (h₁.ending hc ending).bind fun _ s₂ s₂' h₂ => ?_
      rw [hnode, hs.position]
      exact h₂.addSince hc s.position (node parts)
  | name k c c' what hc => exact hs.newName hc what
  | fail v k l c c' fault hc => exact .error hs (hs.error_eq hc fault)
  | closing k c c' mark what hc _ _ => exact hs.expectClosing hc mark what
  | closedByEnd v k l c c' atEnd a what fault hc =>
      have hoptions : c'.options.recover = c.options.recover := congrArg _ hc.options
      simp only [hoptions]
      split
      next => exact (hs.warnClosedByEnd hc what).bind fun _ s₁ s₁' h₁ => .ok a h₁
      next => exact .error hs (hs.error_eq hc fault)
  | missing c c' hc _ ih =>
      have hoptions : c'.options.recover = c.options.recover := congrArg _ hc.options
      simp only [hoptions]
      split
      next => exact hs.missingStatementRule hc
      next => exact ih s s' hs
  | @nested _ _ v k l c c' x x' hc _ ih =>
      show Repeats d ρ old v (Grammar.nested c (fun deeper => x deeper reach) s)
        (Grammar.nested c' (fun deeper => x' deeper reach') s')
      rw [nested_eq, nested_eq]
      by_cases hdeep : nestingLimit ≤ c.depth
      · rw [if_pos hdeep, if_pos (by rw [hc.depth]; exact hdeep)]
        exact .error hs (hs.error_eq hc .tooDeep)
      · rw [if_neg hdeep, if_neg (by rw [hc.depth]; exact hdeep)]
        exact ih s s' hs
  | @label k l c c' x x' y y' hc _ _ _ _ ihx ihy =>
      show Repeats d ρ old d.id
        (labeledOr c (fun start name => x start name reach) (y reach) s)
        (labeledOr c' (fun start name => x' start name reach') (y' reach') s')
      have hcolon : (c'.stream.get (s'.position + 1)).kind =
        (c.stream.get (s.position + 1)).kind := by
        rw [hs.position, Nat.add_assoc, hc.kind]
      rw [labeledOr_eq, labeledOr_eq, hcolon]
      split
      next =>
        refine (hs.newName hc .label).bind fun name s₁ s₁' h₁ => ?_
        rw [bind_advance, bind_advance]
        exact ihx s.position s'.position name hs.position _ _ (h₁.moved hc)
      next => exact ihy k s s' hs
  | reach goal start' c c' agreed hc _ hstart _ _ => exact hreach goal start' c c' s s' hc hs hstart

/-!
## The rules that are left
-/

theorem operatorAt?_eq {c c' : Context} (hc : c'.allowIn = c.allowIn) (kind : TokenKind) :
    operatorAt? c' kind = operatorAt? c kind := by
  unfold operatorAt?
  rw [hc]

section

variable (hreach : reach.Repeats d ρ old reach') {c c' : Context} (hc : Mirrors d ρ c c')
  {s s' : State} (hs : Continues d ρ old s s')
include hreach hc hs

theorem repeats_binaryRule (floor : Nat) :
    Repeats d ρ old d.id (binaryRule reach floor c s) (binaryRule reach' floor c' s') := by
  unfold binaryRule
  rw [bind_position, bind_position]
  refine (hreach .unary 0 c c' s s' hc hs nofun).bind fun left s₁ s₁' h₁ => ?_
  exact hreach (.binaryTail floor s.position left) s'.position c c' s₁ s₁' hc h₁
    fun _ => hs.position

theorem repeats_binaryTailRule (floor start : Nat) (left : NodeId) :
    Repeats d ρ old d.id (binaryTailRule reach floor start left c s)
      (binaryTailRule reach' floor (d.tokens + start) (d.id left) c' s') := by
  unfold binaryTailRule
  rw [bind_peekKind, bind_peekKind, hs.kind_next hc, operatorAt?_eq hc.allowIn]
  cases operatorAt? c (c.next s).kind with
  | none => exact .ok left hs
  | some operator =>
      dsimp only
      split
      next => exact .ok left hs
      next =>
        rw [bind_advance, bind_advance]
        refine (hreach (.binary operator.precedence) 0 c c' _ _ hc (hs.moved hc) nofun).bind
          fun right s₁ s₁' h₁ => ?_
        refine (h₁.addSince hc start (.binary operator left right)).bind
          fun joined s₂ s₂' h₂ => ?_
        exact hreach (.binaryTail floor start joined) _ c c' s₂ s₂' hc h₂ fun _ => rfl

theorem repeats_branchRule :
    Repeats d ρ old d.id (branchRule reach c s) (branchRule reach' c' s') := by
  have hread : Repeats d ρ old d.id (reach .statement c s) (reach' .statement c' s') :=
    hreach .statement 0 c c' s s' hc hs nofun
  unfold branchRule
  rw [recovering_eq, recovering_eq, hc.options]
  split
  next hrecover =>
    generalize reach .statement c s = r at hread ⊢
    generalize reach' .statement c' s' = r' at hread ⊢
    cases hread with
    | ok id h₁ => exact .ok id h₁
    | @error s₁ s₁' e e' h₁ he =>
        have hsame : ρ.exact ->
            (⟨.error, e'.message, some (Span.ofToken (c'.stream.get s'.position))⟩ : Diagnostic) =
              ⟨.error, e.message, some (Span.ofToken (c.stream.get s.position))⟩ := by
          intro hexact
          rw [he hexact, hs.position, hc.exact hexact]
        have hreported := h₁.reported c.options hsame
        simp only [skipStatement_eq]
        rw [hs.position] at hreported ⊢
        rw [hc.skipStop, hc.text _ _ hrecover]
        refine Continues.addSince ?_ hc s.position
          (.skipped (c.textOf s.position (c.skipStop s.position)))
        exact { hreported with position := rfl }
  next => exact hread

theorem repeats_applyRule (goal : Goal) (start' : Nat)
    (hstart : goal.isTail = true -> start' = d.tokens + goal.start) :
    Repeats d ρ old (goal.placedResult d start') (applyRule reach goal c s)
      (applyRule reach' (goal.placed d start') c' s') := by
  cases hgoal : goal.isParallel with
  | true =>
      have hlink : (Scope.mirrors d ρ).link c c' := hc
      exact (parallel_applyRule hlink (Scope.full_mirrors d ρ) goal start' hgoal
        hstart).repeats hreach
        s s' hs
  | false =>
      cases goal with
      | branch => exact repeats_branchRule hreach hc hs
      | binary floor => exact repeats_binaryRule hreach hc hs floor
      | binaryTail floor start left =>
          rw [hstart rfl]
          exact repeats_binaryTailRule hreach hc hs floor start left
      | _ => cases hgoal

end

end

theorem repeats_grammar (d : Offset) (ρ : Likeness) (old : State) (budget : Nat) :
    Strategy.Repeats d ρ old (grammar budget) (grammar budget) := by
  induction budget with
  | zero =>
      intro goal start' c c' s s' hc hs _
      exact .error hs (hs.error_eq hc .exhausted)
  | succ budget ih =>
      intro goal start' c c' s s' hc hs hstart
      exact repeats_applyRule ih hc hs goal start' hstart

end Grammar
end ScriptHints
