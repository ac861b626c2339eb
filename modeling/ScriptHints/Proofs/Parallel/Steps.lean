import ScriptHints.Proofs.Parallel.Basic

/-!
# Parallel steps

The steps that rules share, as parallel readings: a look at the next token, an optional token
and a required one.
-/

namespace ScriptHints
namespace Grammar

open Syntax Token

variable {d : Offset} {σ : Scope}

/-!
## Facts about positions
-/

namespace Facts

variable {k l m : Facts}

theorem Covers.trans (h : k.Covers l) (h' : l.Covers m) : k.Covers m where
  moved hm := h.moved (h'.moved hm)
  unended hm := h.unended (h'.unended hm)
  closed hm := h.closed (h'.closed hm)
  agreed hm := h.agreed (h'.agreed hm)
  inside hm := h.inside (h'.inside hm)
  next kind hm := h.next kind (h'.next kind hm)

theorem read_covers_start : read.Covers start where
  moved _ := rfl
  unended _ := rfl
  closed _ := rfl
  agreed hl := nomatch hl
  inside hl := nomatch hl
  next _ hl := nomatch hl

theorem read_covers_ended : read.Covers ended where
  moved _ := rfl
  unended _ := rfl
  closed _ := rfl
  agreed hl := nomatch hl
  inside hl := nomatch hl
  next _ hl := nomatch hl

theorem behind_covers_ended (kind : TokenKind) : (behind kind).Covers ended where
  moved _ := rfl
  unended hl := nomatch hl
  closed _ := rfl
  agreed hl := nomatch hl
  inside hl := nomatch hl
  next _ hl := nomatch hl

theorem behind_covers_read {kind : TokenKind} (h : kind ≠ .punctuator .semicolon) :
    (behind kind).Covers read where
  moved _ := rfl
  unended _ := decide_eq_true h
  closed _ := rfl
  agreed hl := nomatch hl
  inside _ := decide_eq_true h
  next _ hl := nomatch hl

theorem covers_anywhere_seeing {k : Facts} {kind : TokenKind} (h : k.next = some kind) :
    k.Covers (anywhere.seeing kind) where
  moved hl := nomatch hl
  unended hl := nomatch hl
  closed hl := nomatch hl
  agreed hl := nomatch hl
  inside hl := nomatch hl
  next _ hl := h.trans hl

theorem Alike.refl (k : Facts) (t : Token) : k.Alike t t :=
  ⟨rfl, rfl, fun _ => rfl⟩

theorem Near.refl (k : Facts) (t : Token) : k.Near t t :=
  .alike (.refl k t)

theorem Near.of_unended {t t' : Token} (h : k.Near t t') (hunended : k.unended = true) :
    k.Alike t t' ∨ t.kind = .endOfText ∨ t.kind = .punctuator .semicolon := by
  rcases h with halike | hatEnd | ⟨hended, _, _⟩ | ⟨_, hsemicolon⟩
  · exact .inl halike
  · exact .inr (.inl hatEnd)
  · rw [hended] at hunended
    cases hunended
  · exact .inr (.inr hsemicolon)

end Facts

/-!
## Steps
-/

theorem accept_bind_eq_peekKind (c : Context) (kind : TokenKind) (f : Bool → Reader α) :
    (accept c kind >>= f) = (peekKind c >>= fun found =>
      if found = kind then advance c >>= fun _ => f true else f false) := by
  rw [accept_bind_eq, peekKind_bind_eq]

namespace Parallel

variable {α β γ δ : Type} {v : α → β} {k l m : Facts}

theorem loose {x : Attempt α} {x' : Attempt β} (h : Parallel d σ v k x x' l)
    (hl : l.Covers m) : Parallel d σ v k x x' m :=
  .weaken h (.refl k) hl

theorem anyFacts {x : Attempt α} {x' : Attempt β} (h : Parallel d σ v k x x' l)
    (hk : m.Covers k) : Parallel d σ v m x x' l :=
  .weaken h hk (.refl l)

theorem unseen {x : Attempt α} {x' : Attempt β} (h : Parallel d σ v k.unseen x x' l) :
    Parallel d σ v k x x' l :=
  .weaken h k.covers_unseen (.refl l)

theorem congr {x y : Attempt α} {x' y' : Attempt β} (h : Parallel d σ v k y y' l)
    (hx : x = y) (hx' : x' = y') : Parallel d σ v k x x' l := by
  rw [hx, hx']
  exact h

theorem goal (goal : Goal) {c c' : Context} (h : σ.link c c') (hreaches : σ.reaches goal)
    (htail : goal.isTail = false) (hplain : goal.isWordy = false) :
    Parallel d σ (goal.placedResult d 0) k (fun reach => reach goal c)
      (fun reach => reach (goal.placed d 0) c') (k.after goal false) := by
  refine .reach goal 0 c c' false h hreaches ?_ ?_ nofun
  · rw [htail]
    exact nofun
  · rw [hplain]
    exact nofun

theorem goOn (goal : Goal) {c c' : Context} (h : σ.link c c') {start start' : Nat}
    (hstart : σ.starts start start') (hgoal : goal.start = start) (hreaches : σ.reaches goal)
    (hplain : goal.isWordy = false) :
    Parallel d σ (goal.placedResult d start') k (fun reach => reach goal c)
      (fun reach => reach (goal.placed d start') c') (k.after goal false) := by
  refine .reach goal start' c c' false h hreaches (fun _ => ?_) ?_ nofun
  · rw [hgoal]
    exact hstart
  · rw [hplain]
    exact nofun

theorem ite {p p' : Prop} [Decidable p] [Decidable p'] {x y : Attempt α} {x' y' : Attempt β}
    (hp : p' ↔ p) (hthen : p -> Parallel d σ v k x x' l)
    (helse : ¬ p -> Parallel d σ v k y y' l) :
    Parallel d σ v k (fun reach => if p then x reach else y reach)
      (fun reach => if p' then x' reach else y' reach) l := by
  by_cases h : p
  · simp only [if_pos h, if_pos (hp.mpr h)]
    exact hthen h
  · simp only [if_neg h, if_neg fun h' => h (hp.mp h')]
    exact helse h

theorem map {x : Attempt α} {x' : Attempt β} {f : α → γ} {f' : β → δ} {u : γ → δ}
    (h : Parallel d σ v k x x' l) (hf : forall a, u (f a) = f' (v a)) :
    Parallel d σ u k (fun reach => f <$> x reach) (fun reach => f' <$> x' reach) l := by
  simp only [map_eq_pure_bind]
  refine .bind h fun a => ?_
  rw [← hf a]
  exact .pure u l (f a)

/-- A look after which every token is read, or nothing is read at all. -/
theorem seek {f : Token → Attempt α} {f' : Token → Attempt β} {c c' : Context}
    (h : σ.link c c') (hl : l.moved = true)
    (hread : forall t t', k.Alike t t' -> forall k' : Facts, k.Leaves k' ->
      Parallel d σ v (k'.seeing t.kind) (f t) (f' t') l) :
    Parallel d σ v k (fun reach => peek c >>= fun t => f t reach)
      (fun reach => peek c' >>= fun t => f' t reach) l := by
  refine .look c c' (fun _ => false) h hl (.refl l) ?_ fun t t' _ => hread t t'
  intro t t' hstays
  cases hstays

/-- A look at the kind of a token. Kinds that are not read lead to the same, like the end and
a semicolon. Behind a statement only an `else` is read. -/
theorem lookKind {f : TokenKind → Attempt α} {f' : TokenKind → Attempt β} {y : Attempt α}
    {y' : Attempt β} {c c' : Context} (h : σ.link c c') (stays : TokenKind → Bool)
    (hend : stays .endOfText = true)
    (hsemicolon : k.closed = true -> stays (.punctuator .semicolon) = true)
    (hunended : k.unended = true ∨ forall kind, kind ≠ .keyword .elseWord -> stays kind = true)
    (hm : m.moved = true) (hl : m.Covers l)
    (hy : forall kind, stays kind = true -> f kind = y ∧ f' kind = y')
    (hstay : Parallel d σ v k.unseen y y' l)
    (hread : forall kind, stays kind = false -> forall k' : Facts, k.Leaves k' ->
      Parallel d σ v (k'.seeing kind) (f kind) (f' kind) m) :
    Parallel d σ v k (fun reach => peekKind c >>= fun kind => f kind reach)
      (fun reach => peekKind c' >>= fun kind => f' kind reach) l := by
  simp only [peekKind_bind_eq]
  refine .look (m := m) c c' (fun t => stays t.kind) h hm hl ?_ ?_
  · intro t t' hstays halike
    have hstays₁ : stays t.kind = true := by
      rcases halike with halike | hatEnd | ⟨hended, helse, _⟩ | ⟨hclosed, hmark⟩
      · rw [← halike.kind]
        exact hstays
      · rw [hatEnd]
        exact hend
      · rcases hunended with hunended | hothers
        · rw [hended] at hunended
          cases hunended
        · exact hothers t.kind helse
      · rw [hmark]
        exact hsemicolon hclosed
    rw [(hy t.kind hstays₁).1, (hy t'.kind hstays).2]
    exact hstay
  · intro t t' hreads halike k' hk'
    have hkind : t'.kind = t.kind := halike.kind
    rw [hkind] at hreads ⊢
    exact hread t.kind hreads k' hk'

theorem ifKind {x y : Attempt α} {x' y' : Attempt β} {c c' : Context} (h : σ.link c c')
    {kind : TokenKind} (hend : kind ≠ .endOfText) (hmark : kind ≠ .punctuator .semicolon)
    (hunended : k.unended = true ∨ kind = .keyword .elseWord) (hm : m.moved = true)
    (hl : m.Covers l)
    (hthen : forall k' : Facts, k.Leaves k' ->
      Parallel d σ v (k'.seeing kind) x x' m)
    (helse : Parallel d σ v k.unseen y y' l) :
    Parallel d σ v k
      (fun reach => peekKind c >>= fun found => if found = kind then x reach else y reach)
      (fun reach => peekKind c' >>= fun found => if found = kind then x' reach else y' reach)
      l := by
  refine .lookKind h (fun found => found ≠ kind) (decide_eq_true hend.symm)
    (fun _ => decide_eq_true hmark.symm)
    (hunended.imp_right ?_) hm hl ?_ helse ?_
  · rintro rfl found hother
    exact decide_eq_true hother
  · intro found hother
    have hother : found ≠ kind := of_decide_eq_true hother
    simp only [if_neg hother, and_self]
  · intro found hsame k' hk'
    have hsame : found = kind := by simpa using hsame
    simp only [hsame, if_true]
    exact hthen k' hk'

theorem accept {f : Bool → Attempt α} {f' : Bool → Attempt β} {c c' : Context}
    (h : σ.link c c') {kind : TokenKind} (hend : kind ≠ .endOfText)
    (hmark : kind ≠ .punctuator .semicolon) (hin : kind = .keyword .inWord -> k.agreed = true)
    (hslash : kind.isSlash = false)
    (hunended : k.unended = true ∨ kind = .keyword .elseWord) (hm : m.moved = true)
    (hl : m.Covers l) (htrue : Parallel d σ v (.behind kind) (f true) (f' true) m)
    (hfalse : Parallel d σ v k.unseen (f false) (f' false) l) :
    Parallel d σ v k (fun reach => Grammar.accept c kind >>= fun found => f found reach)
      (fun reach => Grammar.accept c' kind >>= fun found => f' found reach) l := by
  simp only [accept_bind_eq_peekKind]
  refine .ifKind h hend hmark hunended hm hl (fun k' hk' => ?_) hfalse
  refine .bind (.advance c c' kind h rfl hend (fun hkind => hk'.agreed.trans (hin hkind)) ?_)
    fun _ => htrue
  rw [hslash]
  exact nofun

theorem choose {f : Bool → Attempt α} {f' : Bool → Attempt β} {c c' : Context}
    (h : σ.link c c') {kind : TokenKind} (hend : kind ≠ .endOfText)
    (hin : kind = .keyword .inWord -> k.agreed = true) (hslash : kind.isSlash = false)
    (hl : l.moved = true)
    (htrue : Parallel d σ v (.behind kind) (f true) (f' true) l)
    (hfalse : forall k' : Facts, k.Leaves k' ->
      Parallel d σ v k' (f false) (f' false) l) :
    Parallel d σ v k (fun reach => Grammar.accept c kind >>= fun found => f found reach)
      (fun reach => Grammar.accept c' kind >>= fun found => f' found reach) l := by
  simp only [accept_bind_eq]
  refine .seek h hl fun t t' halike k' hk' => .ite (by rw [halike.kind]) ?_
    fun _ => hfalse (k'.seeing t.kind) ⟨hk'.agreed, hk'.inside⟩
  intro hkind
  refine .bind (.advance c c' kind h ?_ hend (fun hkind => hk'.agreed.trans (hin hkind)) ?_)
    fun _ => htrue
  · rw [hkind]
    rfl
  · rw [hslash]
    exact nofun

theorem step {kind : TokenKind} {c c' : Context} (h : σ.link c c') (hk : k.next = some kind)
    (hend : kind ≠ .endOfText) (hin : kind ≠ .keyword .inWord) (hslash : kind.isSlash = false) :
    Parallel d σ id k (fun _ => Grammar.advance c) (fun _ => Grammar.advance c')
    (.behind kind) := by
  refine .advance c c' kind h hk hend (fun hkind => absurd hkind hin) ?_
  rw [hslash]
  exact nofun

end Parallel

section

variable {c c' : Context} (h : σ.link c c')
include h

theorem parallel_expect (mark : Punctuator) (what : Expectation) (k : Facts)
    (hslash : (TokenKind.punctuator mark).isSlash = false) :
    Parallel d σ id k (fun _ => expect c mark what) (fun _ => expect c' mark what)
      (.behind (.punctuator mark)) := by
  unfold expect
  refine .choose h nofun nofun hslash rfl (.loose (.pure id _ ()) (.refl _)) fun k' _ => ?_
  exact .fail id k' _ c c' (.expected what) h

end

end Grammar
end ScriptHints
