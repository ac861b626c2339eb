import ScriptHints.Proofs.Tree.GoalsGrown

/-!
# What the rules for expressions grow

One lemma for each rule. A rule of expressions says how tight its node binds, and the rules
for operators and accesses also say which tokens cannot come next, because they would have
taken them.
-/

namespace ScriptHints
namespace Grammar

open Syntax Token

variable {reach : Strategy} (hreach : reach.Growing) (c : Context) (ended : c.stream.Ended)

/-!
## Names and literals
-/

section

include ended

theorem grows_newName (what : Expectation) (s : State) :
    Grows c s (newName c what) s fun id f s' =>
      Rooted 15 [id] f ∧ s'.position = s.position + 1 := by
  unfold newName
  apply Grows.position
  apply Grows.peek
  split
  next hname =>
    have hholds : (Node.identifier (c.next s).lexeme).Holds (c.next s) :=
      ⟨by rw [hname]; rfl, rfl⟩
    apply (Grows.token ended hholds (by rw [hname]; exact nofun)).mono
    rintro id f s' _ ⟨hposition, rfl⟩
    exact ⟨.tree _ _ _ (Nat.le_refl 15), hposition⟩
  next => exact .fail (.start ended s) _

theorem grows_propertyName (s : State) :
    Grows c s (propertyName c) s fun id f _ => Rooted 15 [id] f := by
  have hname (hword : (c.next s).kind.isName = true) :
      Grows c s (advance c >>= fun _ => addSince c s.position (.identifier (c.next s).lexeme)) s
        fun id f _ => Rooted 15 [id] f := by
    have hholds : (Node.identifier (c.next s).lexeme).Holds (c.next s) := ⟨hword, rfl⟩
    apply (Grows.token ended hholds (by intro hend; rw [hend] at hword; cases hword)).mono
    rintro id f s' _ ⟨_, rfl⟩
    exact .tree _ _ _ (Nat.le_refl 15)
  unfold propertyName
  apply Grows.position
  apply Grows.peek
  split
  next hkind => exact hname (by rw [hkind]; rfl)
  next hkind => exact hname (by rw [hkind]; rfl)
  next hkind => exact hname (by rw [hkind]; rfl)
  next => exact .fail (.start ended s) _

theorem grows_literal {node : Node} (s : State) (hnode : operand? (c.next s) = some node) :
    Grows c s (advance c >>= fun _ => addSince c s.position node) s
      fun id f _ => Rooted 15 [id] f ∧ f.callFree = true := by
  apply (Grows.token ended (holds_of_operand? hnode) (operand?_ne_endOfText hnode)).mono
  rintro id f s' _ ⟨_, rfl⟩
  refine ⟨.tree _ _ _
    (Nat.le_of_eq (tightness_of_isLeaf (holds_of_operand? hnode).isLeaf).symm), ?_⟩
  exact callFree_of_isLeaf (holds_of_operand? hnode).isLeaf

theorem grows_propertyKey (s : State) :
    Grows c s (propertyKey c) s fun id f _ => Rooted 15 [id] f := by
  unfold propertyKey
  apply Grows.position
  apply Grows.peek
  cases hliteral : keyLiteral? (c.next s) with
  | none => exact grows_propertyName c ended s
  | some literal =>
      apply (grows_literal c ended s (operand?_of_keyLiteral? hliteral)).mono
      intro id f s' _ hrooted
      exact hrooted.1

end

/-!
## Sequences, assignments and conditionals
-/

include hreach ended

theorem grows_expressionRule (s : State) :
    Grows c s (expressionRule reach c) s (Goal.expression.Reached c) := by
  unfold expressionRule
  apply Grows.position
  apply Grows.bind (hreach.fresh .assignment rfl c rfl ended s)
  intro first f s₁ hgrown₁ hfirst
  apply hreach.inside hgrown₁ .sequenceTail rfl c rfl
  intro more g s₂ hgrown₂ hmore
  cases more with
  | nil =>
      refine .pure hgrown₂ ⟨?_, trivial, nofun⟩
      exact (hfirst.rooted.append hmore.rooted).mono (Nat.zero_le 1)
  | cons next more =>
      have hall := hfirst.rooted.append hmore.rooted
      have hlength : 2 ≤ (f ++ g).rootNodes.length := by
        rw [← Forest.length_roots, hall.roots]
        exact Nat.le_add_left 2 _
      refine Grows.add hgrown₂ hall.roots.symm rfl ⟨hlength, hall.tight⟩ nofun ?_
      exact ⟨.tree _ _ _ (Nat.zero_le _), trivial, nofun⟩

theorem grows_sequenceTailRule (s : State) :
    Grows c s (sequenceTailRule reach c) s (Goal.sequenceTail.Reached c) := by
  unfold sequenceTailRule
  apply Grows.accept (.start ended s) rfl
  · intro _ hgrown
    apply hreach.inside hgrown .assignment rfl c rfl
    intro next f s₁ hgrown₁ hnext
    apply hreach.inside hgrown₁ .sequenceTail rfl c rfl
    intro more g s₂ hgrown₂ hmore
    exact .pure hgrown₂ ⟨hnext.rooted.append hmore.rooted, trivial, nofun⟩
  · intro _
    exact .pure (.start ended s) ⟨.nil _, trivial, nofun⟩

theorem grows_conditionalRule (s : State) :
    Grows c s (conditionalRule reach c) s fun id f _ => Rooted 2 [id] f := by
  unfold conditionalRule
  apply Grows.position
  apply Grows.bind (hreach.fresh (.binary 0) rfl c rfl ended s)
  intro test f s₁ hgrown₁ htest
  apply Grows.accept hgrown₁ rfl
  · intro _ hgrown₁
    apply hreach.inside hgrown₁ .assignment rfl c.allowingIn rfl
    intro consequent g s₂ hgrown₂ hconsequent
    apply Grows.expect hgrown₂
    intro s₃ hgrown₃
    apply hreach.inside hgrown₃ .assignment rfl c rfl
    intro alternative h s₄ hgrown₄ halternative
    rcases htest.rooted.exists_tree with ⟨n₁, _, _, _, rfl, htight₁⟩
    rcases hconsequent.rooted.exists_tree with ⟨n₂, _, _, _, rfl, htight₂⟩
    rcases halternative.rooted.exists_tree with ⟨n₃, _, _, _, rfl, htight₃⟩
    refine Grows.add hgrown₄ rfl rfl ⟨htight₁, htight₂, htight₃⟩ nofun ?_
    exact .tree _ _ _ (Nat.le_refl 2)
  · intro _
    exact .pure hgrown₁ (htest.rooted.mono (by decide))

theorem grows_assignmentRule (s : State) :
    Grows c s (assignmentRule reach c) s (Goal.assignment.Reached c) := by
  unfold assignmentRule
  apply Grows.position
  apply Grows.bind (grows_conditionalRule hreach c ended s)
  intro target f s₁ hgrown₁ htarget
  apply Grows.peekKind
  cases hoperator : AssignmentOperator.ofKind? (c.next s₁).kind with
  | none => exact .pure hgrown₁ ⟨htarget.mono (by decide), trivial, nofun⟩
  | some operator =>
      apply Grows.advance hgrown₁ (isOperand_of_assignment hoperator)
      intro hgrown₁
      apply hreach.inside hgrown₁ .assignment rfl c rfl
      intro value g s₂ hgrown₂ hvalue
      rcases htarget.exists_tree with ⟨n₁, _, _, _, rfl, htight₁⟩
      rcases hvalue.rooted.exists_tree with ⟨n₂, _, _, _, rfl, htight₂⟩
      refine Grows.add hgrown₂ rfl rfl ⟨htight₁, htight₂⟩ nofun ?_
      exact ⟨.tree _ _ _ (Nat.le_refl 1), trivial, nofun⟩

/-!
## Binary operators
-/

theorem grows_binaryRule (floor : Nat) (s : State) :
    Grows c s (binaryRule reach floor c) s ((Goal.binary floor).Reached c) := by
  unfold binaryRule
  apply Grows.position
  apply Grows.bind (hreach.fresh .unary rfl c rfl ended s)
  intro left f s₁ hgrown₁ hleft
  have hentered : (Goal.binaryTail floor s.position left).Entered c s s₁ f := by
    refine ⟨rfl, hleft.rooted.mono (Nat.min_le_right _ _), ?_⟩
    intro operator _
    apply hleft.rooted.mono
    have hprecedence := Node.precedence_between operator
    show 2 + operator.precedence ≤ 13
    omega
  apply (hreach (.binaryTail floor s.position left) c s s₁ f hgrown₁ hentered).mono
  intro id g s' _ hreached
  exact ⟨hreached.rooted, hreached.stops, nofun⟩

omit ended in
/-- The operator behind an operation binds no tighter than the operation, because the right
operand has taken all tighter ones. -/
theorem grows_binaryTailRule (floor start : Nat) (left : NodeId) {s₀ s : State} {f : Forest}
    (hgrown : Since c.base s₀ s f)
    (hentered : (Goal.binaryTail floor start left).Entered c s₀ s f) :
    Grows c s₀ (binaryTailRule reach floor start left c) s
      ((Goal.binaryTail floor start left).Reached c) := by
  rcases hentered with ⟨rfl, hleft, hnext⟩
  unfold binaryTailRule
  apply Grows.peekKind
  cases hoperator : operatorAt? c (c.next s).kind with
  | none =>
      refine .pure hgrown ⟨hleft, ?_, nofun⟩
      intro operator hsome
      rw [hoperator] at hsome
      cases hsome
  | some operator =>
      dsimp only
      split
      next hlow =>
        refine .pure hgrown ⟨hleft, ?_, nofun⟩
        intro operator' hsome
        rw [hoperator] at hsome
        injection hsome with hsome
        rw [← hsome]
        exact hlow
      next hhigh =>
        apply Grows.advance hgrown (isOperand_of_operatorAt? hoperator)
        intro hgrown
        apply hreach.inside hgrown (.binary operator.precedence) rfl c rfl
        intro right g s₁ hgrown₁ hright
        have hprecedence := Node.precedence_between operator
        rcases (hnext operator hoperator).exists_tree with ⟨n₁, _, _, _, rfl, htight₁⟩
        rcases hright.rooted.exists_tree with ⟨n₂, _, _, _, rfl, htight₂⟩
        have htight₂ : 3 + operator.precedence ≤ n₂.tightness := by
          have hfloor : min (3 + operator.precedence) 13 ≤ n₂.tightness := htight₂
          omega
        refine Grows.addThen hgrown₁ rfl rfl ⟨htight₁, htight₂⟩ nofun ?_
        intro s₂ hposition joined hgrown₂
        have hnext₂ : c.next s₂ = c.next s₁ := by rw [Context.next, Context.next, hposition]
        apply (hreach (.binaryTail floor s₀.position joined) c s₀ _ _ hgrown₂ _).mono
        · intro id h s' _ hreached
          exact ⟨hreached.rooted, hreached.stops, nofun⟩
        refine ⟨rfl, .tree _ _ _ ?_, ?_⟩
        · rw [Node.tightness_binary]
          omega
        · intro operator' hoperator'
          rw [hnext₂] at hoperator'
          have hle : operator'.precedence ≤ operator.precedence :=
            hright.stops operator' hoperator'
          apply Rooted.tree
          rw [Node.tightness_binary]
          omega

/-!
## Accesses, calls and constructions
-/

theorem grows_argumentsRule (s : State) :
    Grows c s (argumentsRule reach c) s (Goal.arguments.Reached c) := by
  unfold argumentsRule
  apply Grows.bind (hreach.fresh .assignment rfl c.allowingIn rfl ended s)
  intro argument f s₁ hgrown₁ hargument
  apply Grows.accept hgrown₁ rfl
  · intro _ hgrown₁
    apply hreach.inside hgrown₁ .arguments rfl c rfl
    intro more g s₂ hgrown₂ hmore
    exact .pure hgrown₂ ⟨hargument.rooted.append hmore.rooted, trivial, nofun⟩
  · intro _
    apply Grows.closing hgrown₁
    intro s₂ hgrown₂
    exact .pure hgrown₂ ⟨hargument.rooted, trivial, nofun⟩

theorem grows_argumentListRule (s : State) :
    Grows c s (argumentListRule reach c) s fun ids f _ => Rooted 1 ids f := by
  unfold argumentListRule
  apply Grows.expect (.start ended s)
  intro s₁ hgrown₁
  apply Grows.accept hgrown₁ rfl
  · intro _ hgrown₁
    exact .pure hgrown₁ (.nil 1)
  · intro _
    apply (Grows.alone hgrown₁ (hreach.fresh .arguments rfl c rfl ended s₁)).mono
    intro ids f s₂ _ hreached
    exact hreached.rooted

/-- A target takes no argument list itself, so that the next token is no parenthesis when the
construction has none. -/
theorem grows_constructionRule (s : State) (hquiet : (c.next s).kind.isOperand = false) :
    Grows c s (constructionRule reach c) s fun id f s' =>
      Rooted 14 [id] f ∧ f.callFree = true ∧
        ((Goal.member true).StopsAt c (c.next s').kind ∨ Rooted 15 [id] f) := by
  unfold constructionRule
  apply Grows.position
  apply Grows.advance (.start ended s) hquiet
  intro hgrown
  have htarget : Grows c (s.moved c) (nested c (reach (.member false))) (s.moved c)
      ((Goal.member false).Reached c) := by
    apply Grows.nested (.start ended _)
    have hread := hreach.fresh (c := { c with depth := c.depth + 1 }) (.member false) rfl _ rfl
      ended (s.moved c)
    apply hread.mono
    intro id f s' _ hreached
    exact ⟨hreached.rooted, hreached.stops, hreached.free⟩
  apply Grows.inside hgrown htarget
  intro target f s₁ hgrown₁ htarget
  rcases htarget.rooted.exists_tree with ⟨n₁, _, _, _, rfl, htight₁⟩
  apply Grows.peekKind
  split
  next =>
    rw [bind_map_left]
    apply Grows.inside hgrown₁ (grows_argumentListRule hreach c ended s₁)
    intro arguments g s₂ hgrown₂ harguments
    refine Grows.add hgrown₂ (congrArg _ harguments.roots.symm) rfl
      ⟨htight₁, harguments.tight⟩ (fun _ => htarget.free rfl) ?_
    exact ⟨.tree _ _ _ (Nat.le_succ 14), rfl, .inr (.tree _ _ _ (Nat.le_refl 15))⟩
  next hparen =>
    rw [pure_bind]
    refine Grows.add hgrown₁ rfl rfl ⟨htight₁, nofun⟩ (fun _ => htarget.free rfl) ?_
    refine ⟨.tree _ _ _ (Nat.le_refl 14), rfl, .inl ?_⟩
    exact ⟨htarget.stops.1, htarget.stops.2.1, fun _ => hparen⟩

omit ended in
/-- An access or a call takes what stands in front of it; it binds as tight as an operand. -/
theorem grows_memberTailRule (calls : Bool) (start : Nat) (front : NodeId) {s₀ s : State}
    {f : Forest} (hgrown : Since c.base s₀ s f)
    (hentered : (Goal.memberTail calls start front).Entered c s₀ s f) :
    Grows c s₀ (memberTailRule reach calls start front c) s
      ((Goal.memberTail calls start front).Reached c) := by
  rcases hentered with ⟨rfl, hfront, hfree, hnext⟩
  have hmore (access : NodeId) (n : Node) (htight : n.tightness = 15) (stop : Nat) (below : Forest)
      (s' : State) (hgrown' : Since c.base s₀ s' (.tree access n s₀.position stop below))
      (hfree' : calls = false -> (Forest.tree access n s₀.position stop below).callFree = true) :
      Grows c s₀ (reach (.memberTail calls s₀.position access) c) s'
        ((Goal.memberTail calls s₀.position front).Reached c) := by
    have hroot : Rooted 15 [access] (.tree access n s₀.position stop below) :=
      .tree _ _ _ (Nat.le_of_eq htight.symm)
    have hentered' : (Goal.memberTail calls s₀.position access).Entered c s₀ s' _ :=
      ⟨rfl, hroot.mono (Nat.le_succ 14), hfree', .inr hroot⟩
    apply (hreach _ c s₀ s' _ hgrown' hentered').mono
    intro id h s'' _ hreached
    exact ⟨hreached.rooted, hreached.stops, hreached.free⟩
  unfold memberTailRule
  apply Grows.peekKind
  split
  next hdot =>
    have hfront : Rooted 15 [front] f := hnext.resolve_left fun hstops => hstops.1 hdot
    apply Grows.advance hgrown (by rw [hdot]; rfl)
    intro hgrown
    apply Grows.inside hgrown (grows_propertyName c hgrown.ended _)
    intro name g s₁ hgrown₁ hname
    rcases hfront.exists_tree with ⟨n₁, _, _, _, rfl, htight₁⟩
    rcases hname.exists_tree with ⟨n₂, _, _, _, rfl, _⟩
    refine Grows.addThen hgrown₁ rfl rfl htight₁ nofun ?_
    intro s₂ _ access hgrown₂
    exact hmore access _ rfl _ _ s₂ hgrown₂ hfree
  next hbracket =>
    have hfront : Rooted 15 [front] f := hnext.resolve_left fun hstops => hstops.2.1 hbracket
    apply Grows.advance hgrown (by rw [hbracket]; rfl)
    intro hgrown
    apply hreach.inside hgrown .expression rfl c.allowingIn rfl
    intro element g s₁ hgrown₁ helement
    apply Grows.closing hgrown₁
    intro s₂ hgrown₂
    rcases hfront.exists_tree with ⟨n₁, _, _, _, rfl, htight₁⟩
    rcases helement.rooted.exists_tree with ⟨n₂, _, _, _, rfl, _⟩
    refine Grows.addThen hgrown₂ rfl rfl htight₁ nofun ?_
    intro s₃ _ access hgrown₃
    exact hmore access _ rfl _ _ s₃ hgrown₃ hfree
  next hparen =>
    split
    next hcalls =>
      have hfront : Rooted 15 [front] f := hnext.resolve_left fun hstops => hstops.2.2 hcalls hparen
      apply Grows.inside hgrown (grows_argumentListRule hreach c hgrown.ended _)
      intro arguments g s₁ hgrown₁ harguments
      rcases hfront.exists_tree with ⟨n₁, _, _, _, rfl, htight₁⟩
      refine Grows.addThen hgrown₁ (congrArg _ harguments.roots.symm) rfl
        ⟨htight₁, harguments.tight⟩ nofun ?_
      intro s₂ _ call hgrown₂
      refine hmore call _ rfl _ _ s₂ hgrown₂ ?_
      rw [hcalls]
      exact nofun
    next hcalls =>
      refine .pure hgrown ⟨hfront, ?_, ?_⟩
      · rw [hparen]
        exact ⟨nofun, nofun, fun h => absurd h hcalls⟩
      · intro _
        exact hfree (Bool.eq_false_iff.mpr hcalls)
  next hdot hbracket hparen =>
    refine .pure hgrown ⟨hfront, ⟨hdot, hbracket, fun _ => hparen⟩, ?_⟩
    intro hcalls
    exact hfree (by simpa [Goal.callFree] using hcalls)

/-!
## Brackets
-/

theorem grows_parenthesizedRule (s : State) (hquiet : (c.next s).kind.isOperand = false) :
    Grows c s (parenthesizedRule reach c) s fun id f _ => Rooted 15 [id] f ∧ f.callFree = true := by
  unfold parenthesizedRule
  apply Grows.position
  apply Grows.advance (.start ended s) hquiet
  intro hgrown
  apply hreach.inside hgrown .expression rfl c.allowingIn rfl
  intro expression f s₁ hgrown₁ hexpression
  apply Grows.closing hgrown₁
  intro s₂ hgrown₂
  refine Grows.add hgrown₂ hexpression.rooted.roots.symm rfl trivial nofun ?_
  exact ⟨.tree _ _ _ (Nat.le_refl 15), rfl⟩

theorem grows_arrayRule (s : State) (hbracket : (c.next s).kind = .punctuator .openBracket) :
    Grows c s (arrayRule reach c) s fun id f _ => Rooted 15 [id] f ∧ f.callFree = true := by
  unfold arrayRule
  have hstart : (s.moved c).position = s.position + 1 :=
    moved_position ended (by rw [hbracket]; exact nofun)
  apply Grows.position
  apply Grows.advance (.start ended s) (by rw [hbracket]; rfl)
  intro hgrown
  apply hreach.insideOnward hgrown .elements rfl c rfl
  intro elements f s₁ honward hgrown₁ helements
  have hwide : Wide c.edge s.position s₁.position := .inl (by omega)
  refine Grows.addWide hgrown₁ helements.rooted.roots.symm rfl hwide helements.rooted.tight nofun ?_
  exact ⟨.tree _ _ _ (Nat.le_refl 15), rfl⟩

theorem grows_elementsRule (s : State) :
    Grows c s (elementsRule reach c) s (Goal.elements.Reached c) := by
  unfold elementsRule
  apply Grows.accept (.start ended s) rfl
  · intro _ hgrown
    exact .pure hgrown ⟨.nil _, trivial, nofun⟩
  · intro _
    apply Grows.accept (.start ended s) rfl
    · intro _ hgrown
      apply hreach.inside hgrown .elements rfl c rfl
      intro more f s₁ hgrown₁ hmore
      exact .pure hgrown₁ ⟨hmore.rooted, trivial, nofun⟩
    · intro _
      apply Grows.bind (hreach.fresh .assignment rfl c.allowingIn rfl ended s)
      intro element f s₁ hgrown₁ helement
      apply Grows.accept hgrown₁ rfl
      · intro _ hgrown₁
        apply hreach.inside hgrown₁ .elements rfl c rfl
        intro more g s₂ hgrown₂ hmore
        exact .pure hgrown₂ ⟨helement.rooted.append hmore.rooted, trivial, nofun⟩
      · intro _
        apply Grows.closing hgrown₁
        intro s₂ hgrown₂
        exact .pure hgrown₂ ⟨helement.rooted, trivial, nofun⟩

theorem grows_objectRule (s : State) (hbrace : (c.next s).kind = .punctuator .openBrace) :
    Grows c s (objectRule reach c) s fun id f _ => Rooted 15 [id] f ∧ f.callFree = true := by
  unfold objectRule
  have hstart : (s.moved c).position = s.position + 1 :=
    moved_position ended (by rw [hbrace]; exact nofun)
  apply Grows.position
  apply Grows.advance (.start ended s) (by rw [hbrace]; rfl)
  intro hgrown
  apply hreach.insideOnward hgrown .properties rfl c rfl
  intro properties f s₁ honward hgrown₁ hproperties
  have hwide : Wide c.edge s.position s₁.position := .inl (by omega)
  refine Grows.addWide hgrown₁ hproperties.rooted.roots.symm rfl hwide trivial nofun ?_
  exact ⟨.tree _ _ _ (Nat.le_refl 15), rfl⟩

theorem grows_propertyRule (s : State) :
    Grows c s (propertyRule reach c) s fun id f _ => Rooted 0 [id] f := by
  unfold propertyRule
  apply Grows.position
  apply Grows.bind (grows_propertyKey c ended s)
  intro key f s₁ hgrown₁ hkey
  apply Grows.expect hgrown₁
  intro s₂ hgrown₂
  apply hreach.inside hgrown₂ .assignment rfl c.allowingIn rfl
  intro value g s₃ hgrown₃ hvalue
  rcases hkey.exists_tree with ⟨n₁, _, _, _, rfl, _⟩
  rcases hvalue.rooted.exists_tree with ⟨n₂, _, _, _, rfl, htight₂⟩
  refine Grows.add hgrown₃ rfl rfl htight₂ nofun ?_
  exact .tree _ _ _ (Nat.zero_le _)

theorem grows_propertiesRule (s : State) :
    Grows c s (propertiesRule reach c) s (Goal.properties.Reached c) := by
  unfold propertiesRule
  apply Grows.accept (.start ended s) rfl
  · intro _ hgrown
    exact .pure hgrown ⟨.nil _, trivial, nofun⟩
  · intro _
    apply Grows.bind (grows_propertyRule hreach c ended s)
    intro property f s₁ hgrown₁ hproperty
    apply Grows.accept hgrown₁ rfl
    · intro _ hgrown₁
      apply hreach.inside hgrown₁ .properties rfl c rfl
      intro more g s₂ hgrown₂ hmore
      exact .pure hgrown₂ ⟨hproperty.append hmore.rooted, trivial, nofun⟩
    · intro _
      apply Grows.closing hgrown₁
      intro s₂ hgrown₂
      exact .pure hgrown₂ ⟨hproperty, trivial, nofun⟩

/-!
## Blocks and functions
-/

theorem grows_blockRule (s : State) :
    Grows c s (blockRule reach c) s fun id f _ => Rooted 0 [id] f := by
  unfold blockRule
  apply Grows.position
  apply Grows.expectOnward (.start ended s)
  intro s₁ honward₁ hgrown₁
  apply hreach.insideOnward hgrown₁ (.statements .closeBrace) rfl c rfl
  intro statements f s₂ honward₂ hgrown₂ hstatements
  apply Grows.closingOnward hgrown₂
  intro s₃ honward₃ hgrown₃
  have hwide : Wide c.edge s.position s₃.position := .inl (by omega)
  refine Grows.addWide hgrown₃ hstatements.rooted.roots.symm rfl hwide trivial nofun ?_
  exact .tree _ _ _ (Nat.zero_le _)

omit hreach in
theorem grows_functionName (declaration : Bool) (s : State) :
    Grows c s (functionName c declaration) s fun name f _ => Rooted 0 name.toList f := by
  unfold functionName
  apply Grows.peekKind
  split
  next =>
    apply Grows.bind (grows_newName c ended .functionName s)
    rintro name f s₁ hgrown₁ ⟨hname, _⟩
    exact .pure hgrown₁ (hname.mono (Nat.zero_le _))
  next =>
    split
    next => exact .fail (.start ended s) _
    next => exact .pure (.start ended s) (.nil _)

theorem grows_parametersRule (s : State) :
    Grows c s (parametersRule reach c) s (Goal.parameters.Reached c) := by
  unfold parametersRule
  apply Grows.bind (grows_newName c ended .parameterName s)
  rintro parameter f s₁ hgrown₁ ⟨hparameter, _⟩
  have hparameter : Rooted 0 [parameter] f := hparameter.mono (Nat.zero_le _)
  apply Grows.accept hgrown₁ rfl
  · intro _ hgrown₁
    apply hreach.inside hgrown₁ .parameters rfl c rfl
    intro more g s₂ hgrown₂ hmore
    exact .pure hgrown₂ ⟨hparameter.append hmore.rooted, trivial, nofun⟩
  · intro _
    apply Grows.closing hgrown₁
    intro s₂ hgrown₂
    exact .pure hgrown₂ ⟨hparameter, trivial, nofun⟩

theorem grows_functionRule (declaration : Bool) (s : State)
    (hquiet : (c.next s).kind.isOperand = false) :
    Grows c s (functionRule reach declaration c) s
      fun id f _ => Rooted 15 [id] f ∧ f.callFree = true := by
  unfold functionRule
  apply Grows.position
  apply Grows.advance (.start ended s) hquiet
  intro hgrown
  apply Grows.inside hgrown (grows_functionName c ended declaration _)
  intro name f s₁ hgrown₁ hname
  apply Grows.expect hgrown₁
  intro s₂ hgrown₂
  have hbody (params : List NodeId) (g : Forest) (s' : State) (hgrown' : Since c.base s s' (f ++ g))
      (hparams : Rooted 0 params g) :
      Grows c s (blockRule reach c >>= fun body =>
        addSince c s.position (.function name params body declaration)) s'
        fun id f _ => Rooted 15 [id] f ∧ f.callFree = true := by
    apply Grows.inside hgrown' (grows_blockRule hreach c ended s')
    intro body h s₃ hgrown₃ hbody
    refine Grows.add hgrown₃ ((hname.append hparams).append hbody).roots.symm rfl trivial nofun ?_
    exact ⟨.tree _ _ _ (Nat.le_refl 15), rfl⟩
  apply Grows.accept hgrown₂ rfl
  · intro _ hgrown₂
    rw [if_pos rfl, pure_bind]
    exact hbody [] .nil _ hgrown₂.nothing (.nil 0)
  · intro _
    rw [if_neg nofun]
    apply hreach.inside hgrown₂ .parameters rfl c rfl
    intro params g s₃ hgrown₃ hparams
    exact hbody params g s₃ hgrown₃ hparams.rooted

/-!
## Operands
-/

theorem grows_operandRule (s : State) :
    Grows c s (operandRule reach c) s fun id f _ => Rooted 15 [id] f ∧ f.callFree = true := by
  unfold operandRule
  apply Grows.position
  apply Grows.peek
  cases hoperand : operand? (c.next s) with
  | some node => exact grows_literal c ended s hoperand
  | none =>
      dsimp only
      split
      next hkind => exact grows_functionRule hreach c ended false s (by rw [hkind]; rfl)
      next hkind => exact grows_parenthesizedRule hreach c ended s (by rw [hkind]; rfl)
      next hkind => exact grows_arrayRule hreach c ended s hkind
      next hkind => exact grows_objectRule hreach c ended s hkind
      next => exact .fail (.start ended s) _
      next => exact .fail (.start ended s) _

theorem grows_memberRule (calls : Bool) (s : State) :
    Grows c s (memberRule reach calls c) s ((Goal.member calls).Reached c) := by
  have htail (front : NodeId) (f : Forest) (s' : State) (hgrown : Since c.base s s' f)
      (hfront : Rooted 14 [front] f) (hfree : f.callFree = true)
      (hnext : (Goal.member true).StopsAt c (c.next s').kind ∨ Rooted 15 [front] f) :
      Grows c s (reach (.memberTail calls s.position front) c) s'
        ((Goal.member calls).Reached c) := by
    have hentered : (Goal.memberTail calls s.position front).Entered c s s' f := by
      refine ⟨rfl, hfront, fun _ => hfree, ?_⟩
      rcases hnext with ⟨hdot, hbracket, hparen⟩ | htight
      · exact .inl ⟨hdot, hbracket, fun _ => hparen rfl⟩
      · exact .inr htight
    apply (hreach _ c s s' f hgrown hentered).mono
    intro id g s'' _ hreached
    exact ⟨hreached.rooted, hreached.stops, hreached.free⟩
  unfold memberRule
  apply Grows.position
  apply Grows.peekKind
  split
  next hnew =>
    apply Grows.bind (grows_constructionRule hreach c ended s (by rw [hnew]; rfl))
    rintro front f s₁ hgrown₁ ⟨hfront, hfree, hnext⟩
    exact htail front f s₁ hgrown₁ hfront hfree hnext
  next =>
    apply Grows.bind (grows_operandRule hreach c ended s)
    rintro front f s₁ hgrown₁ ⟨hfront, hfree⟩
    exact htail front f s₁ hgrown₁ (hfront.mono (Nat.le_succ 14)) hfree (.inr hfront)

/-!
## Unary operators and updates
-/

theorem grows_updateRule (s : State) :
    Grows c s (updateRule reach c) s (Goal.unary.Reached c) := by
  unfold updateRule
  apply Grows.position
  apply Grows.bind (hreach.fresh (.member true) rfl c rfl ended s)
  intro operand f s₁ hgrown₁ hoperand
  apply Grows.peek
  split
  next operator hoperator =>
    split
    next => exact .pure hgrown₁ ⟨hoperand.rooted.mono (by decide), trivial, nofun⟩
    next =>
      apply Grows.advance hgrown₁ (isOperand_of_update hoperator)
      intro hgrown₁
      rcases hoperand.rooted.exists_tree with ⟨n₁, _, _, _, rfl, htight₁⟩
      refine Grows.add hgrown₁ rfl rfl htight₁ nofun ?_
      exact ⟨.tree _ _ _ (Nat.le_refl 13), trivial, nofun⟩
  next => exact .pure hgrown₁ ⟨hoperand.rooted.mono (by decide), trivial, nofun⟩

theorem grows_unaryRule (s : State) :
    Grows c s (unaryRule reach c) s (Goal.unary.Reached c) := by
  unfold unaryRule
  apply Grows.position
  apply Grows.peekKind
  split
  next operator hoperator =>
    apply Grows.advance (.start ended s) (isOperand_of_unary hoperator)
    intro hgrown
    apply hreach.inside hgrown .unary rfl c rfl
    intro operand f s₁ hgrown₁ hoperand
    rcases hoperand.rooted.exists_tree with ⟨n₁, _, _, _, rfl, htight₁⟩
    refine Grows.add hgrown₁ rfl rfl htight₁ nofun ?_
    exact ⟨.tree _ _ _ (Nat.le_refl 13), trivial, nofun⟩
  next =>
    split
    next operator hoperator =>
      apply Grows.advance (.start ended s) (isOperand_of_update hoperator)
      intro hgrown
      apply hreach.inside hgrown .unary rfl c rfl
      intro operand f s₁ hgrown₁ hoperand
      rcases hoperand.rooted.exists_tree with ⟨n₁, _, _, _, rfl, htight₁⟩
      refine Grows.add hgrown₁ rfl rfl htight₁ nofun ?_
      exact ⟨.tree _ _ _ (Nat.le_refl 13), trivial, nofun⟩
    next => exact grows_updateRule hreach c ended s

end Grammar
end ScriptHints
