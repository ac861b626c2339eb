import ScriptHints.Proofs.Parallel.Parts

/-!
# Loops over a part of the tokens

A loop that reads the whole is repeated step by step by the loop that reads a part. Where the
part ends behind an iteration, what the loop has come to is the expression that the part is read
as.
-/

namespace ScriptHints

theorem Syntax.BinaryOperator.kind_ne (operator : BinaryOperator) :
    operator.kind ≠ .endOfText ∧ operator.kind ≠ .punctuator .semicolon := by
  constructor <;> intro h <;> cases operator <;> cases h

namespace Grammar

open Syntax Token

/-!
## Iterations
-/

def Iteration.kind : Iteration → TokenKind
  | .operation operator => operator.kind
  | .name => .punctuator .dot
  | .element => .punctuator .openBracket
  | .arguments => .punctuator .openParen

namespace Loop

theorem kind_of_iteration? {loop : Loop} {c : Context} {kind : TokenKind} {iteration : Iteration}
    (h : loop.iteration? c kind = some iteration) : iteration.kind = kind := by
  cases loop with
  | operations floor =>
      unfold iteration? at h
      cases hoperator : operatorAt? c kind with
      | none =>
          rw [hoperator] at h
          cases h
      | some operator =>
          rw [hoperator] at h
          dsimp only at h
          split at h
          next => cases h
          next =>
            cases h
            exact BinaryOperator.ofKind?_eq_some_iff.mp (Option.filter_eq_some_iff.mp hoperator).1
  | accesses calls =>
      unfold iteration? at h
      cases kind with
      | punctuator mark =>
          cases mark with
          | dot | openBracket =>
              cases h
              rfl
          | openParen =>
              cases calls with
              | false => cases h
              | true =>
                  cases h
                  rfl
          | _ => cases h
      | _ => cases h

/-- Where `in` is an operator, a loop has at least the iterations that it has elsewhere. -/
theorem iteration?_of_allowIn {loop : Loop} {c c' : Context} (hallow : c.allowIn = true)
    {kind : TokenKind} {iteration : Iteration} (h : loop.iteration? c' kind = some iteration) :
    loop.iteration? c kind = some iteration := by
  cases loop with
  | operations floor =>
      unfold iteration? at h ⊢
      cases hoperator : operatorAt? c' kind with
      | none =>
          rw [hoperator] at h
          cases h
      | some operator =>
          have hsame : operatorAt? c kind = some operator := by
            unfold operatorAt? at hoperator ⊢
            rw [Option.filter_eq_some_iff] at hoperator ⊢
            refine ⟨hoperator.1, ?_⟩
            rw [hallow]
            simp
          rw [hoperator] at h
          rw [hsame]
          exact h
  | accesses calls => exact h

/-- An iteration that begins with `in` is taken only where `in` is an operator. -/
theorem allowIn_of_iteration? {loop : Loop} {c : Context} {iteration : Iteration}
    (h : loop.iteration? c (.keyword .inWord) = some iteration) : c.allowIn = true := by
  cases loop with
  | operations floor =>
      unfold iteration? at h
      cases hallow : c.allowIn with
      | true => rfl
      | false =>
          have hnone : operatorAt? c (.keyword .inWord) = none := by
            unfold operatorAt?
            rw [hallow]
            rfl
          rw [hnone] at h
          cases h
  | accesses calls => cases h

end Loop

section

variable {d : Offset} {σ : Scope} {c c' : Context} (h : σ.link c c') (full : σ.Full)
include h full

theorem parallel_frontRule (k : Facts) :
    Parallel d σ d.id k (fun reach => frontRule reach c)
    (fun reach => frontRule reach c') .read := by
  unfold frontRule
  simp only [peekKind_bind_eq]
  refine .seek h rfl fun t t' halike k' _ => .ite (by rw [halike.kind]) (fun hnew => ?_) fun _ => ?_
  · refine parallel_constructionRule h full ?_
    rw [hnew]
    rfl
  · exact parallel_operandRule h full _

theorem Iteration.parallel {iteration : Iteration}
    (hiteration : forall operator, iteration ≠ .operation operator)
    (start start' : Nat) (hstart : σ.starts start start') (left : NodeId) {k : Facts}
    (hk : k.next = some iteration.kind) :
    Parallel d σ d.id k (fun reach => iteration.read reach start left c)
      (fun reach => iteration.read reach start' (d.id left) c') .read := by
  cases iteration with
  | operation operator => exact absurd rfl (hiteration operator)
  | name =>
      refine .bind (.step h hk nofun nofun rfl) fun _ => ?_
      refine .bind (parallel_propertyName h full rfl) fun name => ?_
      exact .add .read c c' start start' (.propertyAccess left name) h hstart (full.adds _) rfl
  | element =>
      refine .bind (.step h hk nofun nofun rfl) fun _ => ?_
      refine .bind (.goal .expression (σ.allowingIn h) (full.reaches _ rfl) rfl rfl)
        fun element => ?_
      refine .bind (.closing _ c c' .closeBracket .closeIndex h nofun rfl) fun _ => ?_
      exact .add .read c c' start start' (.elementAccess left element) h hstart (full.adds _) rfl
  | arguments =>
      refine .bind (parallel_argumentListRule h full.plain k) fun arguments => ?_
      exact .add .read c c' start start' (.call left arguments) h hstart (full.adds _) rfl

end

/-!
## Readings of the part
-/

section

variable {whole : TokenStream} (ended : whole.Ended) {c c' : Context} (hc' : c'.Strict whole)
  {s₀ s s' s₂' : State} {part : TokenStream} {stop m depth budget : Nat}
  (hpart : PartOf s₀.position stop part whole) (hm : m ≤ part.size) (hc : c.Alone part depth)
  (hdepth : depth ≤ c'.depth)
  (hin : m < part.size -> (part.get m).kind = .keyword .inWord -> c'.allowIn = true)
  (hs : Keeping s₀ part whole s s') (hstop : s₂'.position = s₀.position + m)

include ended hc' hpart hm hc hdepth hin hs hstop

theorem Parallel.rereads {u : NodeId → NodeId} {k l : Facts} {x x' : Attempt NodeId} {b : NodeId}
    (h : (link : (Scope.narrows s₀.offset m part whole (c'.allowIn ≠ c.allowIn)).link c c') ->
      Parallel s₀.offset (Scope.narrows s₀.offset m part whole (c'.allowIn ≠ c.allowIn)) u k x x' l)
    (hclosed : l.closed = true) (hk : k.Holds s₀.offset whole s'.position s')
    (hread : x' (grammar budget) s' = .ok b s₂') :
    exists a s₂, x (fullGrammar part) s = .ok a s₂ ∧ b = u a ∧ Keeping s₀ part whole s₂ s₂' := by
  have hpart : PartOf s₀.offset.tokens stop part whole := hpart
  have hnarrows := hpart.narrows hm hc hc' hdepth hin
  rcases (h ⟨hnarrows, fun hdiffer => hdiffer⟩).follows
    (spanning_sameTokens s₀.offset part whole) ended
    (keepsFacts_grammar _ ended budget) (barred_grammar _ ended budget)
    (hpart.follows ended hm s₀ budget)
    s'.position (fun _ => hpart.tight hm) hk hs b s₂' hread (Nat.le_of_eq hstop) with
    ⟨a, s₂, ha, hb, hs₂⟩ | hhalts
  · exact ⟨a, s₂, ha, hb, hs₂⟩
  · have hstop : s₂'.position = s₀.offset.tokens + m := hstop
    cases hhalts with
    | atIn _ _ hbefore _ => omega
    | atStop hopen _ _ =>
        rw [hclosed] at hopen
        cases hopen

theorem Iteration.rereads {iteration : Iteration} (hkind : iteration.kind = (c'.next s').kind)
    (hbound : s'.position ≤ whole.size) {left b : NodeId}
    (hread : iteration.read (grammar budget) s₀.position (s₀.offset.id left) c' s' = .ok b s₂') :
    exists a s₂, iteration.read (fullGrammar part) 0 left c s = .ok a s₂ ∧ b = s₀.offset.id a ∧
      Keeping s₀ part whole s₂ s₂' := by
  by_cases hother : forall operator, iteration ≠ .operation operator
  · refine Parallel.rereads ended hc' hpart hm hc hdepth hin hs hstop
      (k := Facts.start.seeing iteration.kind)
      (fun link => Iteration.parallel link (Scope.full_narrows _ m part whole _) hother 0 _ rfl left
        rfl) rfl ?_ hread
    refine .here hs.front_le hbound hs.nodes_le rfl (by intro h; cases h) ?_
    rintro kind ⟨rfl⟩
    rw [hkind, Context.next, hc'.stream]
  · rcases Classical.not_forall.mp hother with ⟨operator, hoperator⟩
    rw [Classical.not_not] at hoperator
    subst hoperator
    have hpart : PartOf s₀.offset.tokens stop part whole := hpart
    have hnarrows := hpart.narrows hm hc hc' hdepth hin
    have hend : (c'.next s').kind ≠ .endOfText := by
      rw [← hkind]
      exact operator.kind_ne.1
    have hposition : s'.position = s₀.position + s.position := hs.position
    rw [Iteration.read, bind_advance] at hread ⊢
    rcases bind_ok_iff.mp hread with ⟨right, s₁', hright, hadd⟩
    rw [addSince_eq] at hadd
    cases hadd
    have hheld : Facts.start.Holds s₀.offset whole s'.position s' :=
      .here hs.front_le hbound hs.nodes_le rfl (by intro h; cases h) (by intro kind h; cases h)
    have hwhole : (whole.get s'.position).kind = (c'.next s').kind := by
      rw [Context.next, hc'.stream]
    have hbehind := hheld.behind ended hc'.stream hwhole hend
    have honward :=
      (keepsFacts_grammar s₀.offset ended budget (.binary operator.precedence) 0 c' _ hc'
      (Nat.le_trans hbehind.1.front hbehind.1.onward) hbehind.1.bounded hbehind.1.nodes right s₁'
      hright).2.2
    have hlast : s₁'.position = s₀.position + m := hstop
    have hmoved := hs.moved_of_lt hnarrows (by omega) hend ended
    rcases Continues.rereads ended hc' hpart hm hc hdepth hin hmoved hlast
      (.binary operator.precedence)
      rfl rfl rfl hbehind.1.bounded hright with ⟨a, s₂, ha, rfl, hs₂⟩
    refine ⟨s₂.tree.nextId, s₂.added c 0 (.binary operator left a), ?_, hs₂.tree.nextId, ?_⟩
    · exact bind_ok_iff.mpr ⟨a, s₂, ha, addSince_eq _ _ _ _⟩
    · have hfirst : s₀.position = s₀.offset.tokens + 0 := rfl
      exact hs₂.addedSame hnarrows (spanning_sameTokens s₀.offset part whole) hfirst
        (.binary operator left a)

end

/-!
## Loops over the part
-/

section

variable {whole : TokenStream} (ended : whole.Ended) {c' : Context} (hc' : c'.Strict whole)
  {s s' s₂' : State} {b : NodeId} {budget : Nat}

include ended hc'

theorem keeps_frontRule {d : Offset} (hfront : d.tokens ≤ s'.position)
    (hbound : s'.position ≤ whole.size) (hnodes : d.nodes ≤ s'.tree.size) :
    Keeps d whole s'.position d.id .read s' (frontRule (grammar budget) c' s') := by
  have hlink : (Scope.strict whole).link c' c' := hc'
  exact (parallel_frontRule (d := d) hlink (Scope.full_strict whole) .start).keeps ended
    (fun _ _ h => h)
    (fun _ _ => ⟨0, trivial⟩) (keepsFacts_grammar d ended budget) s'.position s'
    (.here hfront hbound hnodes rfl (by intro h; cases h) (by intro kind h; cases h))

theorem Iteration.keeps (budget : Nat) {iteration : Iteration}
    (hkind : iteration.kind = (c'.next s').kind) {d : Offset}
    (hfront : d.tokens ≤ s'.position) (hbound : s'.position ≤ whole.size)
    (hnodes : d.nodes ≤ s'.tree.size) (first : Nat) (left : NodeId) :
    Keeps d whole s'.position d.id .read s'
      (iteration.read (grammar budget) first (d.id left) c' s') := by
  have hwhole : (whole.get s'.position).kind = iteration.kind := by
    rw [hkind, Context.next, hc'.stream]
  have hheld : (Facts.start.seeing iteration.kind).Holds d whole s'.position s' := by
    refine .here hfront hbound hnodes rfl (by intro h; cases h) ?_
    rintro kind ⟨rfl⟩
    exact hwhole
  have hfacts := keepsFacts_grammar d ended budget
  by_cases hother : forall operator, iteration ≠ .operation operator
  · have hlink : (Scope.strict whole).link c' c' := hc'
    exact (Iteration.parallel (d := d) hlink (Scope.full_strict whole) hother first first
      trivial left
      rfl).keeps ended (fun _ _ h => h) (fun _ _ => ⟨0, trivial⟩) hfacts s'.position s' hheld
  · rcases Classical.not_forall.mp hother with ⟨operator, hoperator⟩
    rw [Classical.not_not] at hoperator
    subst hoperator
    have hkinds := operator.kind_ne
    rw [Iteration.read]
    refine ((Keeps.advance ended hc' hheld hwhole hkinds.1).covers
      (Facts.behind_covers_read hkinds.2)).bind fun _ s₁ h₁ => ?_
    refine (Keeps.goal hfacts (.binary operator.precedence) 0 hc' h₁ false).bind
      fun right s₂ h₂ => ?_
    exact Keeps.addSince h₂ c' first (.binary operator (d.id left) (d.id right))

end

namespace Loop

def inner (c : Context) : Loop → Context
  | .operations _ => c
  | .accesses _ => c.deeper

def depth : Loop → Nat
  | .operations _ => 0
  | .accesses _ => 1

theorem alone_inner (loop : Loop) {part : TokenStream} {c : Context} (hc : c.Alone part 0) :
    (loop.inner c).Alone part loop.depth := by
  cases loop with
  | operations floor => exact hc
  | accesses calls => exact hc.deeper

theorem expression_of_whole (loop : Loop) {part : TokenStream} (ended : part.Ended) {c : Context}
    (hc : c.Alone part 0) {s : State} (hs : s.position ≤ part.size)
    (hend : (c.next s).kind = .endOfText) {a : NodeId}
    (h : loop.whole (fullGrammar part) (loop.inner c) .start = .ok a s) :
    fullGrammar part .expression c .start = .ok a s := by
  have htied := tied_fullGrammar ended
  have hstart : State.start.position ≤ part.size := Nat.zero_le _
  cases loop with
  | operations floor =>
      have hloosened : (Loop.operations 0).whole (fullGrammar part) c .start = .ok a s :=
        (Loosens.operations (Nat.zero_le floor)).whole_ok h (by rw [hend]; rfl)
      exact expression_of_binary htied hc.stream hstart hs hend hloosened
  | accesses calls =>
      have hend' : (c.deeper.next s).kind = .endOfText := hend
      have hloosened : (Loop.accesses true).whole (fullGrammar part) c.deeper .start = .ok a s :=
        (Loosens.accesses calls).whole_ok h (by rw [hend']; rfl)
      refine expression_of_member htied hc.stream hstart hs hend ?_ hloosened
      rw [hc.depth]
      decide

/-- The loop that began in the first state has come to the node `left`. What a part has as far as
there is repeated by the loop that reads the part. -/
def GoesOn (loop : Loop) (whole : TokenStream) (c' : Context) (s₀ s' : State) (left : NodeId) :
    Prop :=
  forall stop part c, PartOf s₀.position stop part whole -> s'.position ≤ stop ->
    c.Alone part loop.depth ->
      (s'.position < stop -> (whole.get s'.position).kind = .keyword .inWord ->
        c'.allowIn = true) ->
        exists a s, left = s₀.offset.id a ∧ Keeping s₀ part whole s s' ∧
          loop.whole (fullGrammar part) c .start = loop.rest (fullGrammar part) 0 a c s

section

variable {loop : Loop} {whole : TokenStream} (ended : whole.Ended) {c' : Context}
  (hc' : c'.Strict whole) {s₀ s' s₂' : State} {left b : NodeId} {budget : Nat}

theorem GoesOn.standsAlone (h : loop.GoesOn whole c' s₀ s' left)
    (hmoved : s₀.position < s'.position)
    (hbound : s'.position ≤ whole.size) : StandsAlone whole s'.tree left := by
  refine .of_reads hmoved hbound fun part c hpart hc => ?_
  have hinner := loop.alone_inner hc
  rcases h s'.position part (loop.inner c) hpart (Nat.le_refl _) hinner
    (fun hlt => absurd hlt (Nat.lt_irrefl _)) with ⟨a, s, hid, hs, hwhole⟩
  have hsize := Nat.le_of_eq (hs.atEnd hpart)
  refine ⟨a, s, ?_, hid, hs⟩
  apply loop.expression_of_whole hpart.ended hc hsize (hpart.next_eq_end hc.stream hs)
  rw [hwhole, rest_eq (tied_fullGrammar hpart.ended) hinner.stream hsize,
    hpart.next_eq_end hinner.stream hs, iteration?_endOfText]

include ended hc'

theorem goesOn_front (loop : Loop) (hdepth : loop.depth ≤ c'.depth)
    (hbound : s₀.position ≤ whole.size)
    (hread : loop.front (grammar budget) c' s₀ = .ok left s') :
    loop.GoesOn whole c' s₀ s' left := by
  intro stop part c hpart hle hc hin
  have htied := tied_fullGrammar hpart.ended
  have hsize := hpart.size
  have honward : s₀.position ≤ s'.position := by
    cases loop with
    | operations floor =>
        exact (keepsFacts_grammar s₀.offset ended budget .unary 0 c' s₀ hc' (Nat.le_refl _) hbound
          (Nat.le_refl _) left s' hread).2.2
    | accesses calls =>
        exact (keeps_frontRule ended hc' (d := s₀.offset) (Nat.le_refl _) hbound
          (Nat.le_refl _) left s'
          hread).2.2
  have hm : s'.position - s₀.position ≤ part.size := by omega
  have hstop : s'.position = s₀.position + (s'.position - s₀.position) := by omega
  have hin' : s'.position - s₀.position < part.size ->
      (part.get (s'.position - s₀.position)).kind = .keyword .inWord -> c'.allowIn = true := by
    intro hlt hkind
    apply hin (by omega)
    rw [hstop, hpart.kind _ hlt]
    exact hkind
  have hfront : exists a s, loop.front (fullGrammar part) c .start = .ok a s ∧
      left = s₀.offset.id a ∧ Keeping s₀ part whole s s' := by
    cases loop with
    | operations floor =>
        exact Continues.rereads ended hc' hpart hm hc hdepth hin'
          (keeping_start s₀ part whole) hstop
          .unary rfl rfl rfl hbound hread
    | accesses calls =>
        exact Parallel.rereads ended hc' hpart hm hc hdepth hin' (keeping_start s₀ part whole) hstop
          (fun link => parallel_frontRule link (Scope.full_narrows _ _ part whole _) .start) rfl
          (.here (Nat.le_refl _) hbound (Nat.le_refl _) rfl (by intro h; cases h)
            (by intro kind h; cases h)) hread
  rcases hfront with ⟨a, s, ha, hid, hs⟩
  refine ⟨a, s, hid, hs, ?_⟩
  rw [whole_eq htied hc.stream (Nat.zero_le _), bind_of_ok ha]
  rfl

theorem GoesOn.iteration (h : loop.GoesOn whole c' s₀ s' left) (hdepth : loop.depth ≤ c'.depth)
    (hbound : s'.position ≤ whole.size) {iteration : Iteration}
    (hiteration : loop.iteration? c' (c'.next s').kind = some iteration)
    (hread : iteration.read (grammar budget) s₀.position left c' s' = .ok b s₂') :
    loop.GoesOn whole c' s₀ s₂' b := by
  intro stop part c hpart hle hc hin
  have htied := tied_fullGrammar hpart.ended
  have hsize := hpart.size
  have hkind := kind_of_iteration? hiteration
  have hmoved : s'.position < s₂'.position := by
    have hkeeps := Iteration.keeps ended hc' budget hkind (d := ⟨0, 0⟩) (Nat.zero_le _) hbound
      (Nat.zero_le _) s₀.position left
    rw [Offset.id_zero] at hkeeps
    exact (hkeeps b s₂' hread).2.1.moved rfl
  have hallow (hkind' : (whole.get s'.position).kind = .keyword .inWord) : c'.allowIn = true := by
    rw [Context.next, hc'.stream, hkind'] at hiteration
    exact allowIn_of_iteration? hiteration
  rcases h stop part c hpart (by omega) hc (fun _ => hallow) with ⟨a, s, rfl, hs, hwhole⟩
  have hposition : s'.position = s₀.position + s.position := hs.position
  have hnext : (c.next s).kind = (c'.next s').kind := by
    rw [Context.next, Context.next, hc.stream, hc'.stream, hposition]
    exact (hpart.kind s.position (by omega)).symm
  have hm : s₂'.position - s₀.position ≤ part.size := by omega
  have hstop : s₂'.position = s₀.position + (s₂'.position - s₀.position) := by omega
  have hin' : s₂'.position - s₀.position < part.size ->
      (part.get (s₂'.position - s₀.position)).kind = .keyword .inWord -> c'.allowIn = true := by
    intro hlt hkind'
    apply hin (by omega)
    rw [hstop, hpart.kind _ hlt]
    exact hkind'
  rcases Iteration.rereads ended hc' hpart hm hc hdepth hin' hs hstop hkind hbound hread with
    ⟨a₂, s₂, ha₂, hid, hs₂⟩
  refine ⟨a₂, s₂, hid, hs₂, ?_⟩
  rw [hwhole, rest_eq htied hc.stream (by omega), hnext,
    iteration?_of_allowIn hc.allowIn hiteration]
  exact bind_of_ok ha₂

end

end Loop

end Grammar
end ScriptHints
