import ScriptHints.Proofs.Reader.StatementRules
import ScriptHints.Proofs.Tree.ExpressionsGrown

/-!
# What the rules for statements grow

One lemma for each rule, and with them the grammar as a whole. A statement that is skipped
leaves its half-built nodes behind, and is a leaf for all of its tokens.
-/

namespace ScriptHints
namespace Grammar

open Syntax Token

variable {reach : Strategy} (hreach : reach.Growing) (c : Context) (ended : c.stream.Ended)

include hreach ended

/-!
## Lists of statements
-/

theorem grows_statementsRule (listEnd : ListEnd) (s : State) :
    Grows c s (statementsRule reach listEnd c) s ((Goal.statements listEnd).Reached c) := by
  unfold statementsRule
  apply Grows.peekKind
  split
  next hstop =>
    have hstops : (Goal.statements listEnd).StopsAt c (c.next s).kind := by
      rw [Bool.or_eq_true] at hstop
      exact hstop.imp_left of_decide_eq_true
    exact .pure (.start ended s) ⟨.nil _, hstops, nofun⟩
  next =>
    apply Grows.bind (hreach.fresh .branch rfl c rfl ended s)
    intro statement f s₁ hgrown₁ hstatement
    apply hreach.inside hgrown₁ (.statements listEnd) rfl c rfl
    intro more g s₂ hgrown₂ hmore
    exact .pure hgrown₂ ⟨hstatement.rooted.append hmore.rooted, hmore.stops, nofun⟩

omit hreach ended in
theorem wide_skipStop (hrecover : c.options.recover = true) (start : Nat) :
    Wide c.edge start (c.skipStop start) := by
  rw [c.edge_of_recover hrecover]
  by_cases hlt : start < c.stream.size
  · exact .inl (c.lt_skipStop hlt)
  · exact .inr (Nat.le_of_not_lt hlt)

/-- A skipped statement begins where its reading has begun, and nothing that the reading has
added is a part of it. -/
theorem grows_branchRule (s : State) :
    Grows c s (branchRule reach c) s (Goal.branch.Reached c) := by
  have hread := hreach.fresh .statement rfl c rfl ended s
  have hread : Grows c s (reach .statement c) s (Goal.branch.Reached c) := by
    apply hread.mono
    intro id f s' _ hreached
    exact ⟨hreached.rooted, trivial, nofun⟩
  unfold branchRule
  by_cases hrecover : c.options.recover = true
  · unfold Grows at hread ⊢
    rw [recovering_eq, if_pos hrecover]
    cases heq : reach .statement c s with
    | ok id s' =>
        rw [heq] at hread
        exact hread
    | error e s' =>
        rw [heq] at hread
        let reported := if c.options.report then
          s'.reported ⟨.error, e.message, some (Span.ofToken (c.stream.get s.position))⟩ else s'
        have hkept : Kept s.tree reported.tree := by
          unfold reported
          split <;> exact hread
        have hover : LeafOver c.base (.skipped (c.textOf s.position (c.skipStop s.position)))
            s.position (c.skipStop s.position) := ⟨Nat.le_add_right _ _, rfl⟩
        have hstrict : c.options.recover ≠ false := by
          rw [hrecover]
          exact nofun
        have hleaf := Since.leaf (s := { reported with position := c.skipStop s.position }) ended
          hkept rfl (fun h => absurd h hstrict) (wide_skipStop c hrecover s.position) hover
        simp only [skipStatement_eq, addSince_eq]
        exact ⟨_, hleaf, .tree _ _ _ (Nat.zero_le _), trivial, nofun⟩
  · unfold Grows at hread ⊢
    rw [recovering_eq, if_neg hrecover]
    exact hread

/-!
## Declarations and simple statements
-/

theorem grows_variableRule (s : State) :
    Grows c s (variableRule reach c) s fun id f _ => Rooted 0 [id] f := by
  unfold variableRule
  apply Grows.position
  apply Grows.bind (grows_newName c ended .variableName s)
  rintro target f s₁ hgrown₁ ⟨htarget, _⟩
  apply Grows.accept hgrown₁ rfl
  · intro _ hgrown₁
    rw [if_pos rfl, bind_map_left]
    apply hreach.inside hgrown₁ .assignment rfl c rfl
    intro value g s₂ hgrown₂ hvalue
    rcases htarget.exists_tree with ⟨n₁, _, _, _, rfl, _⟩
    refine Grows.add hgrown₂ (congrArg _ hvalue.rooted.roots.symm) rfl hvalue.rooted.tight nofun ?_
    exact .tree _ _ _ (Nat.zero_le _)
  · intro _
    rw [if_neg nofun, pure_bind]
    rcases htarget.exists_tree with ⟨n₁, _, _, _, rfl, _⟩
    refine Grows.add hgrown₁ rfl rfl nofun nofun ?_
    exact .tree _ _ _ (Nat.zero_le _)

theorem grows_variablesRule (s : State) :
    Grows c s (variablesRule reach c) s (Goal.variables.Reached c) := by
  unfold variablesRule
  apply Grows.bind (grows_variableRule hreach c ended s)
  intro declared f s₁ hgrown₁ hdeclared
  apply Grows.accept hgrown₁ rfl
  · intro _ hgrown₁
    apply hreach.inside hgrown₁ .variables rfl c rfl
    intro more g s₂ hgrown₂ hmore
    exact .pure hgrown₂ ⟨hdeclared.append hmore.rooted, trivial, nofun⟩
  · intro _
    exact .pure hgrown₁ ⟨hdeclared, trivial, nofun⟩

theorem grows_declarationRule (statement : Bool) (s : State)
    (hvar : (c.next s).kind = .keyword .varWord) :
    Grows c s (declarationRule reach statement c) s fun id f _ => Rooted 0 [id] f := by
  unfold declarationRule
  have hstart : (s.moved c).position = s.position + 1 :=
    moved_position ended (by rw [hvar]; exact nofun)
  apply Grows.position
  apply Grows.advance (.start ended s) (by rw [hvar]; rfl)
  intro hgrown
  apply hreach.insideOnward hgrown .variables rfl c rfl
  intro declared f s₁ honward hgrown₁ hdeclared
  have hend (s' : State) (honward' : s₁.position ≤ s'.position) (hgrown' : Since c.base s s' f) :
      Grows c s (addSince c s.position (.variables declared statement)) s'
        fun id f _ => Rooted 0 [id] f := by
    have hwide : Wide c.edge s.position s'.position := .inl (by omega)
    refine Grows.addWide hgrown' hdeclared.rooted.roots.symm rfl hwide trivial nofun ?_
    exact .tree _ _ _ (Nat.zero_le _)
  cases statement with
  | true => exact .endsOnward hgrown₁ hend
  | false => exact hend s₁ (Nat.le_refl _) hgrown₁

omit hreach in
theorem grows_emptyRule (s : State) (hsemicolon : (c.next s).kind = .punctuator .semicolon) :
    Grows c s (emptyRule c) s fun id f _ => Rooted 0 [id] f := by
  unfold emptyRule
  have hstart : (s.moved c).position = s.position + 1 :=
    moved_position ended (by rw [hsemicolon]; exact nofun)
  apply Grows.position
  apply Grows.advance (.start ended s) (by rw [hsemicolon]; rfl)
  intro hgrown
  have hwide : Wide c.edge s.position (s.moved c).position := .inl (by omega)
  refine Grows.addWide hgrown rfl rfl hwide trivial nofun ?_
  exact .tree _ _ _ (Nat.zero_le _)

theorem grows_expressionStatementRule (s : State) :
    Grows c s (expressionStatementRule reach c) s fun id f _ => Rooted 0 [id] f := by
  unfold expressionStatementRule
  apply Grows.position
  apply Grows.bind (hreach.fresh .expression rfl c rfl ended s)
  intro expression f s₁ hgrown₁ hexpression
  apply Grows.ends hgrown₁
  intro s₂ hgrown₂
  refine Grows.add hgrown₂ hexpression.rooted.roots.symm rfl trivial nofun ?_
  exact .tree _ _ _ (Nat.zero_le _)

omit hreach in
theorem grows_missingStatementRule (hrecover : c.options.recover = true) (s : State)
    (hend : (c.next s).kind = .endOfText) :
    Grows c s (missingStatementRule c) s fun id f _ => Rooted 0 [id] f := by
  unfold missingStatementRule
  apply Grows.position
  apply Grows.peek
  apply Grows.reports (.start ended s)
  intro s₁ _ hgrown₁
  have hwide : Wide c.edge s.position s₁.position := by
    rw [Context.edge_of_recover hrecover]
    exact .inr ((ended.kind_get_eq_iff s.position).mp hend)
  refine Grows.addWide hgrown₁ rfl rfl hwide trivial nofun ?_
  exact .tree _ _ _ (Nat.zero_le _)

/-!
## Jumps
-/

omit hreach in
theorem grows_jumpLabel (s : State) :
    Grows c s (jumpLabel c) s fun label f _ => Rooted 0 label.toList f := by
  unfold jumpLabel
  apply Grows.peek
  split
  next =>
    apply Grows.bind (grows_newName c ended .label s)
    rintro name f s₁ hgrown₁ ⟨hname, _⟩
    exact .pure hgrown₁ (hname.mono (Nat.zero_le _))
  next => exact .pure (.start ended s) (.nil 0)

omit hreach in
theorem grows_jumpRule (jump : Option NodeId → Node) (s : State)
    (hquiet : (c.next s).kind.isOperand = false) (hhere : (c.next s).kind ≠ .endOfText)
    (hjump : forall label, (jump label).children = label.toList ∧ (jump label).isLeaf = false ∧
      (jump label).isConstruction = false ∧ forall parts, (jump label).Groups parts) :
    Grows c s (jumpRule jump c) s fun id f _ => Rooted 0 [id] f := by
  unfold jumpRule
  have hstart : (s.moved c).position = s.position + 1 := moved_position ended hhere
  apply Grows.position
  apply Grows.advance (.start ended s) hquiet
  intro hgrown
  apply Grows.insideOnward hgrown (grows_jumpLabel c ended _)
  intro label f s₁ honward₁ hgrown₁ hlabel
  apply Grows.endsOnward hgrown₁
  intro s₂ honward₂ hgrown₂
  rcases hjump label with ⟨hchildren, hinner, hplain, hgroups⟩
  have hwide : Wide c.edge s.position s₂.position := .inl (by omega)
  refine Grows.addWide hgrown₂ (hchildren.trans hlabel.roots.symm) hinner hwide (hgroups _) ?_ ?_
  · rw [hplain]
    exact nofun
  · exact .tree _ _ _ (Nat.zero_le _)

theorem grows_returnRule (s : State) (hreturn : (c.next s).kind = .keyword .returnWord) :
    Grows c s (returnRule reach c) s fun id f _ => Rooted 0 [id] f := by
  unfold returnRule
  have hstart : (s.moved c).position = s.position + 1 :=
    moved_position ended (by rw [hreturn]; exact nofun)
  apply Grows.position
  apply Grows.advance (.start ended s) (by rw [hreturn]; rfl)
  intro hgrown
  have hend (value : Option NodeId) (f : Forest) (s' : State)
      (honward' : (s.moved c).position ≤ s'.position) (hgrown' : Since c.base s s' f)
      (hvalue : Rooted 0 value.toList f) :
      Grows c s (endStatement c .endOfReturn >>= fun _ =>
        addSince c s.position (.returnValue value))
        s' fun id f _ => Rooted 0 [id] f := by
    apply Grows.endsOnward hgrown'
    intro s₂ honward₂ hgrown₂
    have hwide : Wide c.edge s.position s₂.position := .inl (by omega)
    refine Grows.addWide hgrown₂ hvalue.roots.symm rfl hwide trivial nofun ?_
    exact .tree _ _ _ (Nat.zero_le _)
  apply Grows.peek
  split
  next =>
    rw [pure_bind]
    exact hend none .nil _ (Nat.le_refl _) hgrown (.nil 0)
  next =>
    rw [bind_map_left]
    apply hreach.insideOnward hgrown .expression rfl c rfl
    intro value f s₁ honward hgrown₁ hvalue
    exact hend (some value) f s₁ honward hgrown₁ hvalue.rooted

theorem grows_throwRule (s : State) (hquiet : (c.next s).kind.isOperand = false) :
    Grows c s (throwRule reach c) s fun id f _ => Rooted 0 [id] f := by
  unfold throwRule
  apply Grows.position
  apply Grows.advance (.start ended s) hquiet
  intro hgrown
  apply Grows.peek
  split
  next => exact .fail hgrown _
  next =>
    apply hreach.inside hgrown .expression rfl c rfl
    intro value f s₁ hgrown₁ hvalue
    apply Grows.ends hgrown₁
    intro s₂ hgrown₂
    refine Grows.add hgrown₂ hvalue.rooted.roots.symm rfl trivial nofun ?_
    exact .tree _ _ _ (Nat.zero_le _)

/-!
## Conditions and loops
-/

theorem grows_conditionRule (header : Header) (s : State) :
    Grows c s (conditionRule reach header c) s fun id f _ => Rooted 0 [id] f := by
  unfold conditionRule
  apply Grows.expect (.start ended s)
  intro s₁ hgrown₁
  apply hreach.inside hgrown₁ .expression rfl c.allowingIn rfl
  intro condition f s₂ hgrown₂ hcondition
  apply Grows.closing hgrown₂
  intro s₃ hgrown₃
  exact .pure hgrown₃ hcondition.rooted

theorem grows_ifRule (s : State) (hquiet : (c.next s).kind.isOperand = false) :
    Grows c s (ifRule reach c) s fun id f _ => Rooted 0 [id] f := by
  unfold ifRule
  apply Grows.position
  apply Grows.advance (.start ended s) hquiet
  intro hgrown
  apply Grows.inside hgrown (grows_conditionRule hreach c ended .ifElse _)
  intro condition f s₁ hgrown₁ hcondition
  apply hreach.inside hgrown₁ .branch rfl c rfl
  intro thenBranch g s₂ hgrown₂ hthen
  have hend (elseBranch : Option NodeId) (h : Forest) (s' : State)
      (hgrown' : Since c.base s s' (f ++ g ++ h)) (helse : Rooted 0 elseBranch.toList h) :
      Grows c s (addSince c s.position (.ifElse condition thenBranch elseBranch)) s'
        fun id f _ => Rooted 0 [id] f := by
    refine Grows.add hgrown' ((hcondition.append hthen.rooted).append helse).roots.symm rfl
      trivial nofun ?_
    exact .tree _ _ _ (Nat.zero_le _)
  apply Grows.accept hgrown₂ rfl
  · intro _ hgrown₂
    rw [if_pos rfl, bind_map_left]
    apply hreach.inside hgrown₂ .branch rfl c rfl
    intro elseBranch h s₃ hgrown₃ helse
    exact hend (some elseBranch) h s₃ hgrown₃ helse.rooted
  · intro _
    rw [if_neg nofun, pure_bind]
    exact hend none .nil s₂ hgrown₂.nothing (.nil 0)

theorem grows_whileRule (s : State) (hquiet : (c.next s).kind.isOperand = false) :
    Grows c s (whileRule reach c) s fun id f _ => Rooted 0 [id] f := by
  unfold whileRule
  apply Grows.position
  apply Grows.advance (.start ended s) hquiet
  intro hgrown
  apply Grows.inside hgrown (grows_conditionRule hreach c ended .whileLoop _)
  intro condition f s₁ hgrown₁ hcondition
  apply hreach.inside hgrown₁ .branch rfl c rfl
  intro body g s₂ hgrown₂ hbody
  refine Grows.add hgrown₂ (hcondition.append hbody.rooted).roots.symm rfl trivial nofun ?_
  exact .tree _ _ _ (Nat.zero_le _)

theorem grows_doWhileRule (s : State) (hquiet : (c.next s).kind.isOperand = false) :
    Grows c s (doWhileRule reach c) s fun id f _ => Rooted 0 [id] f := by
  unfold doWhileRule
  apply Grows.position
  apply Grows.advance (.start ended s) hquiet
  intro hgrown
  apply hreach.inside hgrown .branch rfl c rfl
  intro body f s₁ hgrown₁ hbody
  apply Grows.accept hgrown₁ rfl
  · intro _ hgrown₁
    apply Grows.inside hgrown₁ (grows_conditionRule hreach c ended .doWhileLoop _)
    intro condition g s₂ hgrown₂ hcondition
    have hend (s' : State) (hgrown' : Since c.base s s' (f ++ g)) :
        Grows c s (addSince c s.position (.doWhileLoop body condition)) s'
          fun id f _ => Rooted 0 [id] f := by
      refine Grows.add hgrown' (hbody.rooted.append hcondition).roots.symm rfl trivial nofun ?_
      exact .tree _ _ _ (Nat.zero_le _)
    apply Grows.accept hgrown₂ rfl
    · intro _ hgrown₂
      exact hend _ hgrown₂
    · intro _
      exact hend s₂ hgrown₂
  · intro _
    exact hgrown₁.kept

theorem grows_withRule (s : State) (hquiet : (c.next s).kind.isOperand = false) :
    Grows c s (withRule reach c) s fun id f _ => Rooted 0 [id] f := by
  unfold withRule
  apply Grows.position
  apply Grows.advance (.start ended s) hquiet
  intro hgrown
  apply Grows.inside hgrown (grows_conditionRule hreach c ended .withObject _)
  intro subject f s₁ hgrown₁ hsubject
  apply hreach.inside hgrown₁ .branch rfl c rfl
  intro body g s₂ hgrown₂ hbody
  refine Grows.add hgrown₂ (hsubject.append hbody.rooted).roots.symm rfl trivial nofun ?_
  exact .tree _ _ _ (Nat.zero_le _)

theorem grows_forInitializerRule (s : State) :
    Grows c s (forInitializerRule reach c) s fun id f _ => Rooted 0 id.toList f := by
  unfold forInitializerRule
  apply Grows.peekKind
  split
  next => exact .pure (.start ended s) (.nil 0)
  next hvar =>
    have hdeclaration := grows_declarationRule hreach c.forbiddingIn ended false s hvar
    exact Grows.map hdeclaration fun _ _ _ h => h
  next =>
    exact (hreach.fresh .expression rfl c.forbiddingIn rfl ended s).map fun _ _ _ h => h.rooted

theorem grows_clauseRule (stop : Punctuator) (s : State) :
    Grows c s (clauseRule reach stop c) s fun id f _ => Rooted 0 id.toList f := by
  unfold clauseRule
  apply Grows.peekKind
  split
  next => exact .pure (.start ended s) (.nil 0)
  next => exact (hreach.fresh .expression rfl c.allowingIn rfl ended s).map fun _ _ _ h => h.rooted

omit ended in
theorem grows_forInTailRule {iterator : NodeId} {s₀ s : State} {f : Forest}
    (hgrown : Since c.base s₀ s f) (hiterator : Rooted 0 [iterator] f) :
    Grows c s₀ (forInTailRule reach s₀.position iterator c) s
      fun id f _ => Rooted 0 [id] f := by
  unfold forInTailRule
  apply hreach.inside hgrown .expression rfl c.allowingIn rfl
  intro subject g s₁ hgrown₁ hsubject
  apply Grows.closing hgrown₁
  intro s₂ hgrown₂
  apply hreach.inside hgrown₂ .branch rfl c rfl
  intro body h s₃ hgrown₃ hbody
  refine Grows.add hgrown₃ ((hiterator.append hsubject.rooted).append hbody.rooted).roots.symm rfl
    trivial nofun ?_
  exact .tree _ _ _ (Nat.zero_le _)

omit ended in
theorem grows_forTailRule {initializer : Option NodeId} {s₀ s : State} {f : Forest}
    (hgrown : Since c.base s₀ s f) (hinitializer : Rooted 0 initializer.toList f) :
    Grows c s₀ (forTailRule reach s₀.position initializer c) s
      fun id f _ => Rooted 0 [id] f := by
  unfold forTailRule
  apply Grows.expect hgrown
  intro s₁ hgrown₁
  apply Grows.inside hgrown₁ (grows_clauseRule hreach c hgrown.ended .semicolon s₁)
  intro condition g s₂ hgrown₂ hcondition
  apply Grows.expect hgrown₂
  intro s₃ hgrown₃
  apply Grows.inside hgrown₃ (grows_clauseRule hreach c hgrown.ended .closeParen s₃)
  intro step h s₄ hgrown₄ hstep
  apply Grows.closing hgrown₄
  intro s₅ hgrown₅
  apply hreach.inside hgrown₅ .branch rfl c rfl
  intro body k s₆ hgrown₆ hbody
  have hall := ((hinitializer.append hcondition).append hstep).append hbody.rooted
  refine Grows.add hgrown₆ hall.roots.symm rfl trivial nofun ?_
  exact .tree _ _ _ (Nat.zero_le _)

theorem grows_forRule (s : State) (hquiet : (c.next s).kind.isOperand = false) :
    Grows c s (forRule reach c) s fun id f _ => Rooted 0 [id] f := by
  unfold forRule
  apply Grows.position
  apply Grows.advance (.start ended s) hquiet
  intro hgrown
  apply Grows.expect hgrown
  intro s₁ hgrown₁
  apply Grows.inside hgrown₁ (grows_forInitializerRule hreach c ended s₁)
  intro initializer f s₂ hgrown₂ hinitializer
  cases initializer with
  | none => exact grows_forTailRule hreach c hgrown₂ hinitializer
  | some initializer =>
      apply Grows.accept hgrown₂ rfl
      · intro _ hgrown₂
        exact grows_forInTailRule hreach c hgrown₂ hinitializer
      · intro _
        exact grows_forTailRule hreach c hgrown₂ hinitializer

/-!
## Switches
-/

omit ended in
theorem grows_caseTailRule {test : Option NodeId} {s₀ s : State} {f : Forest}
    (hgrown : Since c.base s₀ s f) (htest : Rooted 0 test.toList f) :
    Grows c s₀ (caseTailRule reach s₀.position test c) s (Goal.cases.Reached c) := by
  unfold caseTailRule
  have honward := hgrown.onward
  apply Grows.expectOnward hgrown
  intro s₁ honward₁ hgrown₁
  apply hreach.insideOnward hgrown₁ (.statements .closeBraceOrCase) rfl c rfl
  intro body g s₂ honward₂ hgrown₂ hbody
  have hwide : Wide c.edge s₀.position s₂.position := .inl (by omega)
  refine Grows.addWideThen hgrown₂ (htest.append hbody.rooted).roots.symm rfl hwide trivial nofun ?_
  intro s₃ _ case hgrown₃
  have hcase : Rooted 0 [case] _ :=
    .tree (n := .switchCase test body) s₀.position s₂.position (f ++ g) (Nat.zero_le _)
  apply hreach.inside hgrown₃ .cases rfl c rfl
  intro more h s₄ hgrown₄ hmore
  exact .pure hgrown₄ ⟨hcase.append hmore.rooted, trivial, nofun⟩

theorem grows_casesRule (s : State) :
    Grows c s (casesRule reach c) s (Goal.cases.Reached c) := by
  unfold casesRule
  apply Grows.position
  apply Grows.peekKind
  split
  next hkind =>
    apply Grows.advance (.start ended s) (by rw [hkind]; rfl)
    intro hgrown
    exact .pure hgrown ⟨.nil 0, trivial, nofun⟩
  next hkind =>
    apply Grows.advance (.start ended s) (by rw [hkind]; rfl)
    intro hgrown
    apply hreach.inside hgrown .expression rfl c.allowingIn rfl
    intro test f s₁ hgrown₁ htest
    exact grows_caseTailRule hreach c hgrown₁ htest.rooted
  next hkind =>
    apply Grows.advance (.start ended s) (by rw [hkind]; rfl)
    intro hgrown
    exact grows_caseTailRule hreach c hgrown (.nil 0)
  next =>
    split
    next =>
      apply Grows.closedByEnd (.start ended s)
      intro s₁ _ hgrown₁
      exact .pure hgrown₁ ⟨.nil 0, trivial, nofun⟩
    next => exact .fail (.start ended s) _

theorem grows_switchRule (s : State) (hquiet : (c.next s).kind.isOperand = false) :
    Grows c s (switchRule reach c) s fun id f _ => Rooted 0 [id] f := by
  unfold switchRule
  apply Grows.position
  apply Grows.advance (.start ended s) hquiet
  intro hgrown
  apply Grows.inside hgrown (grows_conditionRule hreach c ended .switchCases _)
  intro discriminant f s₁ hgrown₁ hdiscriminant
  apply Grows.expect hgrown₁
  intro s₂ hgrown₂
  apply hreach.inside hgrown₂ .cases rfl c rfl
  intro cases g s₃ hgrown₃ hcases
  refine Grows.add hgrown₃ (hdiscriminant.append hcases.rooted).roots.symm rfl trivial nofun ?_
  exact .tree _ _ _ (Nat.zero_le _)

/-!
## Exceptions
-/

theorem grows_catchRule (s : State) (hquiet : (c.next s).kind.isOperand = false) :
    Grows c s (catchRule reach c) s fun id f _ => Rooted 0 [id] f := by
  unfold catchRule
  apply Grows.position
  apply Grows.advance (.start ended s) hquiet
  intro hgrown
  apply Grows.expect hgrown
  intro s₁ hgrown₁
  apply Grows.inside hgrown₁ (grows_newName c ended .catchParameter s₁)
  rintro parameter f s₂ hgrown₂ ⟨hparameter, _⟩
  apply Grows.closing hgrown₂
  intro s₃ hgrown₃
  apply Grows.inside hgrown₃ (grows_blockRule hreach c ended s₃)
  intro body g s₄ hgrown₄ hbody
  have hall := (hparameter.mono (Nat.zero_le 15)).append hbody
  refine Grows.add hgrown₄ hall.roots.symm rfl trivial nofun ?_
  exact .tree _ _ _ (Nat.zero_le _)

theorem grows_handlerRule (s : State) :
    Grows c s (handlerRule reach c) s fun id f _ => Rooted 0 id.toList f := by
  unfold handlerRule
  apply Grows.peekKind
  split
  next hcatch =>
    exact (grows_catchRule hreach c ended s (by rw [hcatch]; rfl)).map fun _ _ _ h => h
  next => exact .pure (.start ended s) (.nil 0)

theorem grows_finalizerRule (s : State) :
    Grows c s (finalizerRule reach c) s fun id f _ => Rooted 0 id.toList f := by
  unfold finalizerRule
  apply Grows.accept (.start ended s) rfl
  · intro _ hgrown
    apply Grows.alone hgrown
    exact (grows_blockRule hreach c ended _).map fun _ _ _ h => h
  · intro _
    exact .pure (.start ended s) (.nil 0)

theorem grows_tryRule (s : State) (hquiet : (c.next s).kind.isOperand = false) :
    Grows c s (tryRule reach c) s fun id f _ => Rooted 0 [id] f := by
  unfold tryRule
  apply Grows.position
  apply Grows.advance (.start ended s) hquiet
  intro hgrown
  apply Grows.inside hgrown (grows_blockRule hreach c ended _)
  intro body f s₁ hgrown₁ hbody
  apply Grows.inside hgrown₁ (grows_handlerRule hreach c ended s₁)
  intro handler g s₂ hgrown₂ hhandler
  apply Grows.inside hgrown₂ (grows_finalizerRule hreach c ended s₂)
  intro finalizer h s₃ hgrown₃ hfinalizer
  split
  next => exact .fail hgrown₃ _
  next =>
    have hall := (hbody.append hhandler).append hfinalizer
    refine Grows.add hgrown₃ hall.roots.symm rfl trivial nofun ?_
    exact .tree _ _ _ (Nat.zero_le _)

/-!
## All forms
-/

theorem grows_labeledRule (s : State)
    (hcolon : (c.stream.get (s.position + 1)).kind = .punctuator .colon) :
    Grows c s (labeledRule reach c) s fun id f _ => Rooted 0 [id] f := by
  unfold labeledRule
  apply Grows.position
  apply Grows.bind (grows_newName c ended .label s)
  rintro label f s₁ hgrown₁ ⟨hlabel, hposition⟩
  apply Grows.advance hgrown₁
  · show (c.stream.get s₁.position).kind.isOperand = false
    rw [hposition, hcolon]
    rfl
  intro hgrown₁
  apply hreach.inside hgrown₁ .branch rfl c rfl
  intro body g s₂ hgrown₂ hbody
  have hall := (hlabel.mono (Nat.zero_le 15)).append hbody.rooted
  refine Grows.add hgrown₂ hall.roots.symm rfl trivial nofun ?_
  exact .tree _ _ _ (Nat.zero_le _)

theorem grows_statementRule (s : State) :
    Grows c s (statementRule reach c) s fun id f _ => Rooted 0 [id] f := by
  unfold statementRule
  apply Grows.peekKind
  split
  next hkind => exact grows_blockRule hreach c ended s
  next hkind => exact grows_emptyRule c ended s hkind
  next hkind => exact grows_declarationRule hreach c ended true s hkind
  next hkind => exact grows_ifRule hreach c ended s (by rw [hkind]; rfl)
  next hkind => exact grows_doWhileRule hreach c ended s (by rw [hkind]; rfl)
  next hkind => exact grows_whileRule hreach c ended s (by rw [hkind]; rfl)
  next hkind => exact grows_forRule hreach c ended s (by rw [hkind]; rfl)
  next hkind =>
    exact grows_jumpRule c ended .continueOn s (by rw [hkind]; rfl) (by rw [hkind]; exact nofun)
      fun _ => ⟨rfl, rfl, rfl, fun _ => trivial⟩
  next hkind =>
    exact grows_jumpRule c ended .breakOff s (by rw [hkind]; rfl) (by rw [hkind]; exact nofun)
      fun _ => ⟨rfl, rfl, rfl, fun _ => trivial⟩
  next hkind => exact grows_returnRule hreach c ended s hkind
  next hkind => exact grows_withRule hreach c ended s (by rw [hkind]; rfl)
  next hkind => exact grows_switchRule hreach c ended s (by rw [hkind]; rfl)
  next hkind => exact grows_throwRule hreach c ended s (by rw [hkind]; rfl)
  next hkind => exact grows_tryRule hreach c ended s (by rw [hkind]; rfl)
  next hkind =>
    apply (grows_functionRule hreach c ended true s (by rw [hkind]; rfl)).mono
    rintro id f s' _ ⟨hrooted, _⟩
    exact hrooted.mono (Nat.zero_le _)
  next =>
    unfold isLabel
    rw [bind_assoc]
    apply Grows.position
    rw [pure_bind]
    split
    next hlabel => exact grows_labeledRule hreach c ended s (of_decide_eq_true hlabel)
    next => exact grows_expressionStatementRule hreach c ended s
  next hkind =>
    split
    next hrecover => exact grows_missingStatementRule c ended hrecover s hkind
    next => exact grows_expressionStatementRule hreach c ended s
  next => exact grows_expressionStatementRule hreach c ended s

/-!
## All goals
-/

theorem grows_applyRule (goal : Goal) (hbegins : goal.begins = true) (s : State) :
    Grows c s (applyRule reach goal c) s (goal.Reached c) := by
  cases goal with
  | statements listEnd => exact grows_statementsRule hreach c ended listEnd s
  | statement =>
      apply Grows.nested (.start ended s)
      apply (grows_statementRule hreach { c with depth := c.depth + 1 } ended s).mono
      intro id f s' _ hrooted
      exact ⟨hrooted, trivial, nofun⟩
  | branch => exact grows_branchRule hreach c ended s
  | «variables» => exact grows_variablesRule hreach c ended s
  | cases => exact grows_casesRule hreach c ended s
  | parameters => exact grows_parametersRule hreach c ended s
  | expression => exact grows_expressionRule hreach c ended s
  | sequenceTail => exact grows_sequenceTailRule hreach c ended s
  | assignment => exact grows_assignmentRule hreach c ended s
  | binary floor => exact grows_binaryRule hreach c ended floor s
  | binaryTail floor start left => cases hbegins
  | unary =>
      apply Grows.nested (.start ended s)
      apply (grows_unaryRule hreach { c with depth := c.depth + 1 } ended s).mono
      intro id f s' _ hreached
      exact ⟨hreached.rooted, trivial, nofun⟩
  | member calls => exact grows_memberRule hreach c ended calls s
  | memberTail calls start front => cases hbegins
  | arguments => exact grows_argumentsRule hreach c ended s
  | elements => exact grows_elementsRule hreach c ended s
  | properties => exact grows_propertiesRule hreach c ended s

omit hreach ended in
theorem growing_grammar (budget : Nat) : (grammar budget).Growing := by
  induction budget with
  | zero =>
      intro goal c s₀ s f hgrown _
      exact .fail hgrown _
  | succ budget ih =>
      intro goal c s₀ s f hgrown hentered
      cases goal with
      | binaryTail floor start left =>
          exact grows_binaryTailRule ih c floor start left hgrown hentered
      | memberTail calls start front =>
          exact grows_memberTailRule ih c calls start front hgrown hentered
      | _ =>
          rcases hentered with ⟨rfl, rfl⟩
          exact grows_applyRule ih c hgrown.ended _ rfl s₀

end Grammar
end ScriptHints
