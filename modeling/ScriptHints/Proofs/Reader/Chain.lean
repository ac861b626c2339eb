import ScriptHints.Proofs.Token.Chain
import ScriptHints.Proofs.Tree.Parsed
import ScriptHints.Proofs.Parallel.Basic

/-!
# Chains of binary operators

The reader of binary operators is a loop around its own recursion: the right operand of an
operator takes the tighter operators behind it, and the loop goes on with what they leave. What
it makes of a chain of names is the stratified tree of the chain.
-/

namespace ScriptHints
namespace Grammar

open Syntax Token

/-!
## Chains among the tokens
-/

structure LinkAt (stream : TokenStream) (position : Nat) (operator : BinaryOperator)
    (name : String) : Prop where
  lt : position + 1 < stream.size
  kind : (stream.get position).kind = operator.kind
  nameKind : (stream.get (position + 1)).kind = .identifier
  lexeme : (stream.get (position + 1)).lexeme = name

/-- From the position on, the tokens are the links of a chain and the end of the text. -/
def ChainAt (stream : TokenStream) (position : Nat) : List (BinaryOperator × String) → Prop
  | [] => (stream.get position).kind = .endOfText
  | (operator, name) :: links =>
      LinkAt stream position operator name ∧ ChainAt stream (position + 2) links

theorem parseExpression_of_reading {text : String} {stream : TokenStream}
    (h : tokensOf text = .ok stream) {o : Options} {root : NodeId} {s : State}
    (hread : Parser.readExpression (scriptContext text stream o) State.start = .ok root s) :
    parseExpression text o = .ok (s.tree.withRoot root) := by
  have hrun : (Parser.ofTokens text stream o).expression = _ := Parser.run_of_ok hread
  unfold parseExpression Parser.ofText
  rw [h]
  simp only [Except.map]
  rw [hrun]

theorem get_of_toList {stream : TokenStream} {front behind : List Token} {t : Token}
    (h : stream.body.toList = front ++ t :: behind) : stream.get front.length = t := by
  unfold TokenStream.get
  rw [← Array.getElem?_toList, h, List.getElem?_append_right (Nat.le_refl _), Nat.sub_self]
  rfl

theorem chainAt_of_tokens {stream : TokenStream} (hended : stream.stop.kind = .endOfText)
    {links : List (BinaryOperator × String)} {ts : List Token} (h : ChainTokens links ts)
    {front : List Token} (hbody : stream.body.toList = front ++ ts) :
    ChainAt stream front.length links := by
  have hsize : stream.size = stream.body.toList.length := Array.length_toList.symm
  induction h generalizing front with
  | nil =>
      show (stream.get front.length).kind = _
      rw [stream.get_of_size_le (by rw [hsize, hbody, List.append_nil])]
      exact hended
  | @cons operator name links t u ts htkind hukind hlexeme _ ih =>
      have hnext : stream.body.toList = (front ++ [t]) ++ u :: ts := by
        rw [hbody, List.append_assoc]
        rfl
      have hlater : stream.body.toList = (front ++ [t, u]) ++ ts := by
        rw [hbody, List.append_assoc]
        rfl
      have hfirst := get_of_toList hbody
      have hsecond := get_of_toList hnext
      rw [List.length_append] at hsecond
      have hlinks := ih hlater
      rw [List.length_append] at hlinks
      refine ⟨⟨?_, hfirst ▸ htkind, hsecond ▸ hukind, hsecond ▸ hlexeme⟩, hlinks⟩
      rw [hsize, hbody, List.length_append, List.length_cons, List.length_cons]
      omega

/-!
## Operands
-/

def Context.Stops (c : Context) (s : State) : Prop :=
  (c.next s).kind = .endOfText ∨
    exists operator : BinaryOperator, (c.next s).kind = operator.kind

variable {c : Context} {s : State} {links : List (BinaryOperator × String)}

theorem ChainAt.stops (h : ChainAt c.stream s.position links) : c.Stops s := by
  cases links with
  | nil => exact .inl h
  | cons link links => exact .inr ⟨link.1, h.1.kind⟩

theorem Context.Stops.memberTail (h : c.Stops s) (reach : Strategy) (calls : Bool) (start : Nat)
    (front : NodeId) : memberTailRule reach calls start front c s = .ok front s := by
  unfold memberTailRule
  rw [bind_peekKind]
  rcases h with h | ⟨operator, h⟩
  · rw [h]
    rfl
  · rw [h]
    cases operator <;> rfl

theorem Context.Stops.noUpdate (h : c.Stops s) :
    UpdateOperator.ofKind? (c.next s).kind = none := by
  rcases h with h | ⟨operator, h⟩
  · rw [h]
    rfl
  · rw [h]
    cases operator <;> rfl

def State.named (s : State) (c : Context) : State :=
  (s.moved c).added c s.position (.identifier (c.next s).lexeme)

theorem position_moved (hlt : s.position < c.stream.size) :
    (s.moved c).position = s.position + 1 := by
  unfold State.moved
  rw [if_pos hlt]

theorem operand_name (reach : Strategy) (hname : (c.next s).kind = .identifier) :
    operandRule reach c s = .ok s.tree.nextId (s.named c) := by
  have hnode : operand? (c.next s) = some (.identifier (c.next s).lexeme) := by
    unfold operand?
    rw [hname]
  unfold operandRule
  rw [bind_position, bind_peek, hnode]
  show (advance c >>= fun _ => addSince c s.position _) s = _
  rw [bind_advance, addSince_eq, State.tree_moved]
  rfl

theorem member_name (budget : Nat) (hname : (c.next s).kind = .identifier)
    (hstops : c.Stops (s.named c)) :
    grammar (budget + 2) (.member true) c s = .ok s.tree.nextId (s.named c) := by
  show memberRule (grammar (budget + 1)) true c s = _
  unfold memberRule
  rw [bind_position, bind_peekKind, hname, if_neg (by decide), bind_of_ok (operand_name _ hname)]
  exact hstops.memberTail (grammar budget) true s.position s.tree.nextId

theorem unary_name (budget : Nat) (hdepth : c.depth < nestingLimit)
    (hname : (c.next s).kind = .identifier) (hstops : c.Stops (s.named c)) :
    grammar (budget + 3) .unary c s = .ok s.tree.nextId (s.named c) := by
  have hmember : grammar (budget + 2) (.member true) c.deeper s =
      .ok s.tree.nextId (s.named c) :=
    member_name budget hname hstops
  have hupdate : UpdateOperator.ofKind? (c.deeper.next (s.named c)).kind = none :=
    hstops.noUpdate
  show nested c (unaryRule (grammar (budget + 2))) s = _
  rw [nested_eq, if_neg (Nat.not_le_of_lt hdepth)]
  show unaryRule (grammar (budget + 2)) c.deeper s = _
  unfold unaryRule
  rw [bind_position, bind_peekKind, show (c.deeper.next s).kind = .identifier from hname]
  show updateRule (grammar (budget + 2)) c.deeper s = _
  unfold updateRule
  rw [bind_position, bind_of_ok hmember, bind_peek, hupdate]
  rfl

/-!
## Operators
-/

/-- A tree that a chain goes on behind: its operators bind tighter than a floor, and the next
operator of the chain no tighter than its root. -/
structure Built (floor : Nat) (tree : OperatorTree) (links : List (BinaryOperator × String)) :
    Prop where
  stratified : tree.Stratified
  above : forall root, tree.root? = some root -> floor < root.precedence
  next : forall root operator name more, tree.root? = some root ->
    links = (operator, name) :: more -> operator.precedence ≤ root.precedence

theorem built_name (floor : Nat) (name : String) (links : List (BinaryOperator × String)) :
    Built floor (.name name) links where
  stratified := trivial
  above root hroot := by cases hroot
  next root operator name' more hroot := by cases hroot

def HeadAtMost (floor : Nat) (rest : List (BinaryOperator × String)) : Prop :=
  forall operator name more, rest = (operator, name) :: more -> operator.precedence ≤ floor

/-- The tree that the loop over operators ends with. It has taken the links up to the first
operator that is not above the floor. -/
structure Climbed (c : Context) (floor : Nat) (tree : OperatorTree)
    (links : List (BinaryOperator × String)) (s : State) (id : NodeId) (s' : State) : Prop where
  grown : s.tree.Extends s'.tree
  result : exists tree' taken rest, s'.tree.Shows id tree' ∧ Built floor tree' rest ∧
    tree'.first = tree.first ∧ tree'.links = tree.links ++ taken ∧ links = taken ++ rest ∧
    ChainAt c.stream s'.position rest ∧ HeadAtMost floor rest

variable {floor : Nat} {tree : OperatorTree} {id : NodeId}

theorem climbed_here (hshows : s.tree.Shows id tree) (hbuilt : Built floor tree links)
    (hchain : ChainAt c.stream s.position links) (hatMost : HeadAtMost floor links) :
    Climbed c floor tree links s id s where
  grown := .refl _
  result := ⟨tree, [], links, hshows, hbuilt, rfl, (List.append_nil _).symm, rfl, hchain, hatMost⟩

theorem operatorAt?_kind (hin : c.allowIn = true) (operator : BinaryOperator) :
    operatorAt? c operator.kind = some operator := by
  unfold operatorAt?
  rw [BinaryOperator.ofKind?_kind, hin]
  simp

def TailClimbs (c : Context) (count : Nat) : Prop :=
  forall (links : List (BinaryOperator × String)) (budget floor start : Nat) (id : NodeId)
    (tree : OperatorTree) (s : State), links.length ≤ count -> 2 * count + 4 ≤ budget ->
    s.tree.Shows id tree -> Built floor tree links -> ChainAt c.stream s.position links ->
    exists id' s', grammar budget (.binaryTail floor start id) c s = .ok id' s' ∧
      Climbed c floor tree links s id' s'

theorem binary_chain {count : Nat} (htail : TailClimbs c count) (hdepth : c.depth < nestingLimit)
    {name : String} (hlinks : links.length ≤ count) {budget : Nat}
    (hbudget : 2 * count + 5 ≤ budget)
    (hlt : s.position < c.stream.size) (hkind : (c.next s).kind = .identifier)
    (hlexeme : (c.next s).lexeme = name) (hchain : ChainAt c.stream (s.position + 1) links)
    (floor : Nat) :
    exists id s', grammar budget (.binary floor) c s = .ok id s' ∧
      Climbed c floor (.name name) links s id s' := by
  rcases Nat.exists_eq_add_of_le' (Nat.le_trans (Nat.le_add_left 5 _) hbudget) with ⟨more, rfl⟩
  have hnamed : ChainAt c.stream (s.named c).position links := by
    show ChainAt c.stream (s.moved c).position links
    rw [position_moved hlt]
    exact hchain
  have htree : (s.named c).tree =
      s.tree.add (.identifier name) (c.spanOf s.position (s.moved c).position) := by
    unfold State.named State.added
    rw [State.tree_moved, hlexeme]
  have hshows : (s.named c).tree.Shows s.tree.nextId (.name name) := by
    rw [htree]
    exact .name (SyntaxTree.node_add_nextId _ _ _)
  rcases htail links (more + 4) floor s.position s.tree.nextId (.name name) (s.named c) hlinks
    (by omega) hshows (built_name floor name links) hnamed with ⟨id, s', hread, hclimbed⟩
  refine ⟨id, s', ?_, ?_, hclimbed.result⟩
  · show binaryRule (grammar (more + 4)) floor c s = _
    unfold binaryRule
    rw [bind_position, bind_of_ok (unary_name (more + 1) hdepth hkind hnamed.stops)]
    exact hread
  · refine .trans ?_ hclimbed.grown
    rw [htree]
    exact SyntaxTree.extends_add _ _ _

/-- The first link of a chain whose first operator is above a floor. -/
theorem exists_above (h : ¬ HeadAtMost floor links) :
    exists operator name more, links = (operator, name) :: more ∧ floor < operator.precedence := by
  cases links with
  | nil => exact absurd (fun _ _ _ heq => nomatch heq) h
  | cons link more =>
      refine ⟨link.1, link.2, more, rfl, Nat.lt_of_not_le fun hle => h ?_⟩
      intro operator name more' heq
      cases heq
      exact hle

theorem binaryTail_headAtMost (budget start : Nat) (hin : c.allowIn = true)
    (hchain : ChainAt c.stream s.position links) (hatMost : HeadAtMost floor links) :
    grammar (budget + 1) (.binaryTail floor start id) c s = .ok id s := by
  show binaryTailRule (grammar budget) floor start id c s = _
  unfold binaryTailRule
  rw [bind_peekKind]
  cases links with
  | nil =>
      rw [show (c.next s).kind = .endOfText from hchain]
      rfl
  | cons link links =>
      rcases link with ⟨operator, name⟩
      rw [show (c.next s).kind = _ from hchain.1.kind, operatorAt?_kind hin]
      show (if operator.precedence ≤ floor then _ else _ : Reader NodeId) s = _
      rw [if_pos (hatMost operator name links rfl)]
      rfl

/-- The right operand of an operator has been read, and joins the tree before it. -/
theorem Climbed.join {s₁ s₂ : State} {right : NodeId} {operator : BinaryOperator} {name : String}
    (hright : Climbed c operator.precedence (.name name) links s₁ right s₂)
    (hbefore : s₁.tree = s.tree) (hshows : s.tree.Shows id tree)
    (hbuilt : Built floor tree ((operator, name) :: links)) (hless : floor < operator.precedence)
    (start : Nat) :
    exists tree' taken rest,
      (s₂.added c start (.binary operator id right)).tree.Shows s₂.tree.nextId tree' ∧
        Built floor tree' rest ∧ tree'.first = tree.first ∧
        tree'.links = tree.links ++ (operator, name) :: taken ∧ links = taken ++ rest ∧
        ChainAt c.stream s₂.position rest := by
  rcases hright with ⟨hgrown, other, taken, rest, hother, hbuilt', hfirst, hlinks, hsplit, hchain,
    hatMost⟩
  rw [hbefore] at hgrown
  have hleft := hshows.grows hgrown
  have hadds : s₂.tree.Extends (s₂.added c start (.binary operator id right)).tree :=
    SyntaxTree.extends_add _ _ _
  refine ⟨.joined operator tree other, taken, rest, ?_, ?_, rfl, ?_, hsplit, hchain⟩
  · exact .joined (SyntaxTree.node_add_nextId _ _ _) hleft.index_lt hother.index_lt
      (hleft.grows hadds) (hother.grows hadds)
  · constructor
    · exact ⟨hbuilt.stratified, hbuilt'.stratified,
        fun inner hroot => hbuilt.next inner operator name links hroot rfl, hbuilt'.above⟩
    · rintro root ⟨⟩
      exact hless
    · rintro root next name' more ⟨⟩ heq
      exact hatMost next name' more heq
  · rw [OperatorTree.links, hfirst, hlinks]
    rfl

/-- The loop over operators: the right operand of one is read first, and the joined tree takes
its place before what that operand has left. -/
theorem tailClimbs (hdepth : c.depth < nestingLimit) (hin : c.allowIn = true) (count : Nat) :
    TailClimbs c count := by
  induction count with
  | zero =>
      intro links budget floor start id tree s hlinks hbudget hshows hbuilt hchain
      rcases Nat.exists_eq_add_of_le' (Nat.le_trans (Nat.le_add_left 1 3) hbudget) with ⟨b, rfl⟩
      have hatMost : HeadAtMost floor links := by
        intro operator name more heq
        rw [heq] at hlinks
        exact absurd hlinks (Nat.not_succ_le_zero _)
      exact ⟨id, s, binaryTail_headAtMost b start hin hchain hatMost,
        climbed_here hshows hbuilt hchain hatMost⟩
  | succ count ih =>
      intro links budget floor start id tree s hlinks hbudget hshows hbuilt hchain
      have hpositive : 1 ≤ 2 * (count + 1) + 4 := Nat.le_add_left 1 _
      rcases Nat.exists_eq_add_of_le' (Nat.le_trans hpositive hbudget) with ⟨b, rfl⟩
      by_cases hatMost : HeadAtMost floor links
      · exact ⟨id, s, binaryTail_headAtMost b start hin hchain hatMost,
          climbed_here hshows hbuilt hchain hatMost⟩
      rcases exists_above hatMost with ⟨operator, name, more, rfl, hless⟩
      rcases hchain with ⟨hat, hrest⟩
      have hmoved := position_moved (Nat.lt_of_succ_lt hat.lt)
      have hnext : c.next (s.moved c) = c.stream.get (s.position + 1) := by
        unfold Context.next
        rw [hmoved]
      have hlt : (s.moved c).position < c.stream.size := by
        rw [hmoved]
        exact hat.lt
      have hname : (c.next (s.moved c)).lexeme = name := by
        rw [hnext]
        exact hat.lexeme
      rw [show s.position + 2 = (s.moved c).position + 1 by rw [hmoved]] at hrest
      rcases binary_chain ih hdepth (Nat.le_of_succ_le_succ hlinks)
        (show 2 * count + 5 ≤ b by omega) hlt (hnext ▸ hat.nameKind) hname hrest
        operator.precedence with ⟨right, s₁, hread, hright⟩
      rcases hright.join (State.tree_moved s c) hshows hbuilt hless start with
        ⟨tree₁, taken, rest, hshows₁, hbuilt₁, hfirst₁, hlinks₁, rfl, hchain₁⟩
      have hcount : rest.length ≤ count := by
        rw [List.length_cons, List.length_append] at hlinks
        omega
      rcases ih rest b floor start s₁.tree.nextId tree₁ _ hcount (by omega) hshows₁ hbuilt₁ hchain₁
        with ⟨id', s', hmore, hgrown, tree', taken', rest', hshows', hbuilt', hfirst', hlinks',
          rfl, hend⟩
      refine ⟨id', s', ?_, ?_, tree', (operator, name) :: (taken ++ taken'), rest', hshows',
        hbuilt', hfirst'.trans hfirst₁, ?_, ?_, hend⟩
      · show binaryTailRule (grammar b) floor start id c s = _
        unfold binaryTailRule
        rw [bind_peekKind, show (c.next s).kind = _ from hat.kind, operatorAt?_kind hin]
        show (if operator.precedence ≤ floor then _ else _ : Reader NodeId) s = _
        rw [if_neg (Nat.not_le_of_lt hless), bind_advance, bind_of_ok hread,
          bind_of_ok (addSince_eq ..)]
        exact hmore
      · have hgrown₁ := hright.grown
        rw [State.tree_moved] at hgrown₁
        exact hgrown₁.trans (.trans (SyntaxTree.extends_add _ _ _) hgrown)
      · rw [hlinks', hlinks₁, List.append_assoc]
        rfl
      · rw [List.cons_append, List.append_assoc]

/-!
## Expressions
-/

theorem headAtMost_zero {rest : List (BinaryOperator × String)} (h : HeadAtMost 0 rest) :
    rest = [] := by
  cases rest with
  | nil => rfl
  | cons link rest =>
      exact absurd (h link.1 link.2 rest rfl) (Nat.not_le_of_lt link.1.precedence_pos)

/-- An expression that is a chain ends with the text, and is the tree of the chain. -/
theorem readExpression_chain {first : String} (hdepth : c.depth < nestingLimit)
    (hin : c.allowIn = true) (hlt : s.position < c.stream.size)
    (hkind : (c.next s).kind = .identifier) (hlexeme : (c.next s).lexeme = first)
    (hchain : ChainAt c.stream (s.position + 1) links)
    (hbudget : 2 * links.length + 7 ≤ c.budget) :
    exists root s' tree, Parser.readExpression c s = .ok root s' ∧ s'.tree.Shows root tree ∧
      tree.Stratified ∧ tree.first = first ∧ tree.links = links := by
  rcases Nat.exists_eq_add_of_le' (Nat.le_trans (Nat.le_add_left 7 _) hbudget) with ⟨b, hb⟩
  rcases binary_chain (tailClimbs hdepth hin links.length) hdepth (Nat.le_refl _)
    (show 2 * links.length + 5 ≤ b + 5 by omega) hlt hkind hlexeme hchain 0 with
    ⟨root, s', hread, _, tree, taken, rest, hshows, hbuilt, hfirst, hlinks, hsplit, hend, hatMost⟩
  cases headAtMost_zero hatMost
  have hend : (c.next s').kind = .endOfText := hend
  refine ⟨root, s', tree, ?_, hshows, hbuilt.stratified, hfirst, ?_⟩
  · have hassignment : grammar (b + 6) .assignment c s = .ok root s' := by
      show assignmentRule (grammar (b + 5)) c s = _
      have hconditional : conditionalRule (grammar (b + 5)) c s = .ok root s' := by
        unfold conditionalRule
        rw [bind_position, bind_of_ok hread, bind_accept, hend, if_neg (by decide)]
        rfl
      unfold assignmentRule
      rw [bind_position, bind_of_ok hconditional, bind_peekKind, hend]
      rfl
    have hmore : grammar (b + 6) .sequenceTail c s' = .ok [] s' := by
      show sequenceTailRule (grammar (b + 5)) c s' = _
      unfold sequenceTailRule
      rw [bind_accept, hend, if_neg (by decide)]
      rfl
    have hexpression : grammar c.budget .expression c s = .ok root s' := by
      rw [hb]
      show expressionRule (grammar (b + 6)) c s = _
      unfold expressionRule
      rw [bind_position, bind_of_ok hassignment, bind_of_ok hmore]
      rfl
    exact Parser.readExpression_ok_iff.mpr ⟨hexpression, hend⟩
  · rw [hlinks, hsplit, List.append_nil]
    rfl

/-- A chain of names and binary operators is an expression. Its tree is the stratified tree with
these names and operators, of which there is only one, and prints as the chain. -/
theorem parseExpression_chain {first : String} (hfirst : IsName first)
    (hlinks : forall link, link ∈ links -> IsName link.2) :
    exists syntaxTree root tree,
      parseExpression (chainText first links) .strict = .ok syntaxTree ∧
        syntaxTree.root = some root ∧ syntaxTree.Shows root tree ∧
        tree.names = first :: links.map Prod.snd ∧ tree.operators = links.map Prod.fst ∧
        tree.Stratified ∧
        (forall other : OperatorTree, other.names = first :: links.map Prod.snd ->
          other.operators = links.map Prod.fst -> other.Stratified -> other = tree) ∧
        syntaxTree.toSource root = .ok (chainText first links) := by
  rcases tokensOf_chain hfirst hlinks with ⟨stream, t, ts, htokens, hbody, hkind, hlexeme, hts⟩
  have hget : (scriptContext (chainText first links) stream .strict).next State.start = t :=
    get_of_toList (show stream.body.toList = [] ++ t :: ts from hbody)
  have hchain : ChainAt stream 1 links :=
    chainAt_of_tokens (ended_tokensOf htokens).stop hts
      (show stream.body.toList = [t] ++ ts from hbody)
  have hsize : stream.size = 2 * links.length + 1 := by
    show stream.body.size = _
    rw [← Array.length_toList, hbody, List.length_cons, hts.length_eq]
  have hlt : 0 < stream.size := by
    rw [hsize]
    exact Nat.succ_pos _
  have hbudget : 2 * links.length + 7 ≤ rulesPerToken * (stream.size + 2) := by
    rw [hsize]
    unfold rulesPerToken
    omega
  rcases readExpression_chain (c := scriptContext (chainText first links) stream .strict)
    (s := State.start) (Nat.succ_pos _) rfl hlt (hget ▸ hkind) (hget ▸ hlexeme) hchain hbudget with
    ⟨root, s', tree, hread, hshows, hstratified, hfirst', hlinks'⟩
  have hnames : tree.names = first :: links.map Prod.snd := by
    rw [tree.names_eq, hfirst', hlinks']
  have hoperators : tree.operators = links.map Prod.fst := by
    rw [tree.operators_eq, hlinks']
  have hroot := hshows.withRoot root
  have hsource := hroot.toSource
  rw [hfirst', hlinks'] at hsource
  refine ⟨s'.tree.withRoot root, root, tree, ?_, rfl, hroot, hnames, hoperators, hstratified, ?_,
    hsource⟩
  · exact parseExpression_of_reading htokens hread
  · intro other hnames' hoperators' hstratified'
    exact hstratified'.eq_of_same hstratified (hnames'.trans hnames.symm)
      (hoperators'.trans hoperators.symm)

theorem parseExpression_chain_subtraction :
    (IsName "a" ∧ forall link, link ∈ [(BinaryOperator.isMember, "b"), (.subtract, "c"),
      (.subtract, "d")] -> IsName link.2) ∧
    exists syntaxTree root tree,
      parseExpression "a in b - c - d" .strict = .ok syntaxTree ∧
        syntaxTree.root = some root ∧ syntaxTree.Shows root tree ∧
        tree = .joined .isMember (.name "a")
          (.joined .subtract (.joined .subtract (.name "b") (.name "c")) (.name "d")) := by
  have hnames : IsName "a" ∧ forall link, link ∈ [(BinaryOperator.isMember, "b"), (.subtract, "c"),
      (.subtract, "d")] -> IsName link.2 := by
    decide +kernel
  rcases parseExpression_chain hnames.1 hnames.2 with
    ⟨syntaxTree, root, tree, hparse, hroot, hshows, _, _, _, hunique, _⟩
  refine ⟨hnames, syntaxTree, root, tree, hparse, hroot, hshows, (hunique _ rfl rfl ?_).symm⟩
  simp [OperatorTree.Stratified, OperatorTree.root?, BinaryOperator.precedence]

end Grammar
end ScriptHints
