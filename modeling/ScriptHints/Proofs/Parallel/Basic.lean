import ScriptHints.Proofs.Reader.StatementRules
import ScriptHints.Proofs.Syntax.Displacement
import ScriptHints.Proofs.Token.Local

/-!
# Readings that take the same steps

The same rules are read in two contexts: the second reading has tokens and nodes in front
of it that the first one has not, and its tokens may go on where those of the first one end.
Two readings are parallel if they are composed of the same steps, with positions and ids
displaced. What two such readings have in common is then proved by induction on the steps.

A reading of the second kind looks at a token where the first one may see the end of the
text, or a semicolon. At every look it is said which tokens make it read on; at all others it
does what it does at the end of the text, or at a semicolon.
-/

namespace ScriptHints

namespace Syntax

def Node.isExpression : Node → Bool
  | .identifier _ | .number _ _ | .string _ _ | .boolean _ | .nullValue | .thisValue
  | .regExp _ _ | .object _ | .array _ | .binary _ _ _ | .assignment _ _ _
  | .propertyAccess _ _ | .elementAccess _ _ | .call _ _ | .construction _ _ | .unary _ _
  | .update _ _ _ | .conditional _ _ _ | .parenthesized _ | .sequence _ => true
  | .function _ _ _ declaration => !declaration
  | _ => false

/-- A statement that ends with a semicolon, which may be taken for granted. -/
def Node.takesSemicolon : Node → Bool
  | .expressionStatement _ | .variables _ true | .breakOff _ | .continueOn _
  | .returnValue _ | .throwValue _ => true
  | _ => false

end Syntax

namespace Grammar

open Syntax Token

/-!
## Placed goals and results
-/

def Goal.start : Goal → Nat
  | .binaryTail _ start _ => start
  | .memberTail _ start _ => start
  | _ => 0

/-- The goal with displaced nodes, for an expression that began elsewhere. -/
def Goal.placed (d : Offset) (start : Nat) : Goal → Goal
  | .statements listEnd => .statements listEnd
  | .statement => .statement
  | .branch => .branch
  | .variables => .variables
  | .cases => .cases
  | .parameters => .parameters
  | .expression => .expression
  | .sequenceTail => .sequenceTail
  | .assignment => .assignment
  | .binary floor => .binary floor
  | .binaryTail floor _ left => .binaryTail floor start (d.id left)
  | .unary => .unary
  | .member calls => .member calls
  | .memberTail calls _ front => .memberTail calls start (d.id front)
  | .arguments => .arguments
  | .elements => .elements
  | .properties => .properties

def Goal.placedResult (d : Offset) (start : Nat) :
    (goal : Goal) → goal.Result → (goal.placed d start).Result
  | .statements _, ids => ids.map d.id
  | .statement, id => d.id id
  | .branch, id => d.id id
  | .variables, ids => ids.map d.id
  | .cases, ids => ids.map d.id
  | .parameters, ids => ids.map d.id
  | .expression, id => d.id id
  | .sequenceTail, ids => ids.map d.id
  | .assignment, id => d.id id
  | .binary _, id => d.id id
  | .binaryTail _ _ _, id => d.id id
  | .unary, id => d.id id
  | .member _, id => d.id id
  | .memberTail _ _ _, id => d.id id
  | .arguments, ids => ids.map d.id
  | .elements, ids => ids.map (Option.map d.id)
  | .properties, ids => ids.map d.id

def Goal.unended : Goal → Bool
  | .statements _ | .statement | .branch => false
  | _ => true

def Goal.mayBeEmpty : Goal → Bool
  | .statements _ | .sequenceTail | .binaryTail _ _ _ | .memberTail _ _ _ => true
  | _ => false

def Goal.isTail : Goal → Bool
  | .binaryTail _ _ _ | .memberTail _ _ _ => true
  | _ => false

/-- The rest of an operation, whose next step depends on the operators that are allowed. -/
def Goal.isOperation : Goal → Bool
  | .binaryTail _ _ _ => true
  | _ => false

/-- What is reached only inside an operand, or behind one. -/
def Goal.isInner : Goal → Bool
  | .binaryTail _ _ _ | .member _ | .memberTail _ _ _ => true
  | _ => false

def Goal.isOpen : Goal → Bool
  | .statements _ => true
  | _ => false

/-- A goal that may begin with any word. -/
def Goal.isWordy : Goal → Bool
  | .properties => true
  | _ => false

end Grammar

namespace Grammar

open Syntax Token

/-- A statement may end before the token without a semicolon. -/
def Grants (t : Token) : Prop :=
  t.kind = .punctuator .closeBrace ∨ t.kind = .endOfText ∨ t.newlineBefore = true

instance (t : Token) : Decidable (Grants t) :=
  inferInstanceAs (Decidable (_ ∨ _))

/-!
## Facts about positions
-/

/-- What is known about the position of a reading, compared with where it started. -/
structure Facts where
  /-- A token has been read. -/
  moved : Bool
  /-- The last token that was read, if any, is no semicolon. -/
  unended : Bool
  /-- What was read last does not go on behind its last semicolon. -/
  closed : Bool
  /-- What was read last was read in the same way, whatever the contexts say about `in`. -/
  agreed : Bool
  /-- The token before the position is no semicolon. -/
  inside : Bool
  /-- The kind of the token that comes next. -/
  next : Option TokenKind

namespace Facts

def start : Facts :=
  ⟨false, true, true, false, false, none⟩

def fresh : Facts :=
  ⟨false, true, true, true, false, none⟩

/-- Before a list of statements, which is not over at a semicolon. -/
def atList : Facts :=
  ⟨false, true, false, false, false, none⟩

def read : Facts :=
  ⟨true, true, true, false, true, none⟩

def common : Facts :=
  ⟨true, true, true, true, true, none⟩

def ended : Facts :=
  ⟨true, false, true, false, false, none⟩

def listed : Facts :=
  ⟨true, false, false, false, false, none⟩

def anywhere : Facts :=
  ⟨false, false, false, false, false, none⟩

def seeing (k : Facts) (kind : TokenKind) : Facts :=
  { k with next := some kind }

def unseen (k : Facts) : Facts :=
  { k with next := none }

def behind (kind : TokenKind) : Facts :=
  ⟨true, kind ≠ .punctuator .semicolon, true, true, kind ≠ .punctuator .semicolon, none⟩

structure Covers (k l : Facts) : Prop where
  moved : l.moved = true -> k.moved = true
  unended : l.unended = true -> k.unended = true
  closed : l.closed = true -> k.closed = true
  agreed : l.agreed = true -> k.agreed = true
  inside : l.inside = true -> k.inside = true
  next : forall kind, l.next = some kind -> k.next = some kind

theorem Covers.refl (k : Facts) : k.Covers k :=
  ⟨fun h => h, fun h => h, fun h => h, fun h => h, fun h => h, fun _ h => h⟩

theorem covers_unseen (k : Facts) : k.Covers k.unseen :=
  ⟨fun h => h, fun h => h, fun h => h, fun h => h, fun h => h, nofun⟩

/-- What stays true where a reading goes on from a token as if it began there. -/
structure Leaves (k l : Facts) : Prop where
  agreed : l.agreed = k.agreed
  inside : l.inside = k.inside

theorem Leaves.refl (k : Facts) : k.Leaves k :=
  ⟨rfl, rfl⟩

theorem covers_anywhere (k : Facts) : k.Covers anywhere :=
  ⟨nofun, nofun, nofun, nofun, nofun, nofun⟩

def after (k : Facts) (goal : Goal) (agreed : Bool) : Facts :=
  { moved := !goal.mayBeEmpty || k.moved
    unended := goal.unended && (!goal.mayBeEmpty || k.unended)
    closed := !goal.isOpen && (!goal.mayBeEmpty || k.closed && k.unended)
    agreed := agreed
    inside := goal.unended && (!goal.mayBeEmpty || k.inside)
    next := none }

/-- Tokens that the steps of a rule cannot tell apart. A line end in front of them counts
only behind another token. -/
structure Alike (k : Facts) (t t' : Token) : Prop where
  kind : t'.kind = t.kind
  lexeme : t'.lexeme = t.lexeme
  newlineBefore : k.moved = true -> t'.newlineBefore = t.newlineBefore

/-- Tokens at which both readings stay where they are, if the second one does. Behind a
statement the second one may see the end of the text, if the first one sees no `else`. The
first one may see a semicolon where the second one can do without it. -/
inductive Near (k : Facts) (t t' : Token) : Prop where
  | alike :
      k.Alike t t' ->
      Near k t t'
  | atEnd :
      t.kind = .endOfText ->
      Near k t t'
  | behindStatement :
      k.unended = false ->
      t.kind ≠ .keyword .elseWord ->
      t'.kind = .endOfText ->
      Near k t t'
  | inserted :
      k.closed = true ->
      t.kind = .punctuator .semicolon ->
      Near k t t'

end Facts

/-!
## Parallel readings
-/

/-- A reading for all ways of reaching goals. -/
abbrev Attempt (α : Type) :=
  Strategy → Reader α

def Context.deeper (c : Context) : Context :=
  { c with depth := c.depth + 1 }

/-- A label with its colon and what goes on behind them, or something without a label. -/
def labeledOr (c : Context) (labeled : Nat → NodeId → Reader NodeId) (other : Reader NodeId) :
    Reader NodeId := do
  if ← isLabel c then
    let start ← position
    let name ← newName c .label
    advance c
    labeled start name
  else
    other

theorem labeledOr_eq (c : Context) (labeled : Nat → NodeId → Reader NodeId)
    (other : Reader NodeId) (s : State) :
    labeledOr c labeled other s =
      if (c.stream.get (s.position + 1)).kind = .punctuator .colon then
        (newName c .label >>= fun name => advance c >>= fun _ => labeled s.position name) s
      else other s := by
  have hlabel : isLabel c s =
      .ok ((c.stream.get (s.position + 1)).kind = .punctuator .colon) s := rfl
  unfold labeledOr
  rw [bind_of_ok hlabel]
  by_cases hcolon : (c.stream.get (s.position + 1)).kind = .punctuator .colon
  · rw [decide_eq_true hcolon, if_pos rfl, if_pos hcolon, bind_position]
  · rw [decide_eq_false hcolon, if_neg nofun, if_neg hcolon]

/-- How a statement ends: with a semicolon that may be taken for granted, or that may be
missing. -/
inductive Ending where
  | required (what : Expectation)
  | optional

def Ending.read (c : Context) : Ending → Reader Unit
  | .required what => endStatement c what
  | .optional => discard (accept c (.punctuator .semicolon))

theorem endStatement_eq (c : Context) (what : Expectation) (s : State) :
    endStatement c what s =
      if (c.next s).kind = .punctuator .semicolon then .ok () (s.moved c)
      else if Grants (c.next s) then .ok () s
      else .error { fault := .expected what, found := c.next s } s := by
  unfold endStatement
  rw [bind_peek]
  simp only [Bool.or_eq_true, decide_eq_true_eq, or_assoc]
  split
  next => rfl
  next =>
    by_cases hgrants : Grants (c.next s)
    · rw [if_pos hgrants]
      exact congrFun (if_pos hgrants) s
    · rw [if_neg hgrants]
      exact congrFun (if_neg hgrants) s

theorem optional_read_eq (c : Context) (s : State) :
    Ending.optional.read c s =
      if (c.next s).kind = .punctuator .semicolon then .ok () (s.moved c) else .ok () s := by
  show ((fun _ => ()) <$> accept c (.punctuator .semicolon)) s = _
  rw [map_eq_pure_bind, bind_accept]
  rfl

def endedBy (c : Context) (ending : Ending) (node : α → Node) (front : Reader α) :
    Reader NodeId := do
  let start ← position
  let parts ← front
  ending.read c
  addSince c start (node parts)

def Ending.Allows : Ending → Token → Prop
  | .required _, t => Grants t
  | .optional, _ => True

theorem Ending.allows_of_end (ending : Ending) {t : Token} (h : t.kind = .endOfText) :
    ending.Allows t := by
  cases ending with
  | required what => exact .inr (.inl h)
  | optional => trivial

theorem Ending.read_of_semicolon {c : Context} {s : State} (ending : Ending)
    (h : (c.next s).kind = .punctuator .semicolon) : ending.read c s = advance c s := by
  cases ending with
  | required what => exact (endStatement_eq c what s).trans (if_pos h)
  | optional => exact (optional_read_eq c s).trans (if_pos h)

theorem Ending.read_ok_iff {c : Context} {s s' : State} {b : Unit} (ending : Ending)
    (h : (c.next s).kind ≠ .punctuator .semicolon) :
    ending.read c s = .ok b s' ↔ ending.Allows (c.next s) ∧ s' = s := by
  cases ending with
  | required what =>
      show endStatement c what s = _ ↔ Grants (c.next s) ∧ _
      rw [endStatement_eq, if_neg h]
      split
      next hgrants =>
        simp only [EStateM.Result.ok.injEq, true_and, hgrants, eq_comm]
      next hgrants => simp only [reduceCtorEq, hgrants, false_and]
  | optional =>
      rw [optional_read_eq, if_neg h]
      simp only [EStateM.Result.ok.injEq, true_and, Allows, eq_comm]

theorem Ending.tree_of_read_ok {c : Context} {s s' : State} {b : Unit} (ending : Ending)
    (h : ending.read c s = .ok b s') : s'.tree = s.tree := by
  by_cases hmark : (c.next s).kind = .punctuator .semicolon
  · rw [ending.read_of_semicolon hmark, advance_eq] at h
    cases h
    exact s.tree_moved c
  · rw [((ending.read_ok_iff hmark).mp h).2]

theorem Facts.Alike.allows_iff {k : Facts} {t t' : Token} (h : k.Alike t t')
    (hmoved : k.moved = true) (ending : Ending) : ending.Allows t' ↔ ending.Allows t := by
  cases ending with
  | required what =>
      show Grants t' ↔ Grants t
      unfold Grants
      rw [h.kind, h.newlineBefore hmoved]
  | optional => exact Iff.rfl

/-- Which readings are compared, and what they may do. -/
structure Scope where
  /-- The second context stands for the first one. -/
  link : Context → Context → Prop
  allowingIn {c c' : Context} : link c c' -> link c.allowingIn c'.allowingIn
  forbiddingIn {c c' : Context} : link c c' -> link c.forbiddingIn c'.forbiddingIn
  deeper {c c' : Context} : link c c' -> link c.deeper c'.deeper
  /-- Where the second reading may have begun something that the first one began. -/
  starts : Nat → Nat → Prop
  /-- The nodes that may be added. -/
  adds : Node → Prop
  /-- The goals that may be reached. -/
  reaches : Goal → Prop
  noOperation (goal : Goal) : reaches goal -> goal.isOperation = false

structure Scope.Plain (σ : Scope) : Prop where
  adds (node : Node) : node.isExpression = false -> σ.adds node
  reaches (goal : Goal) : goal.isInner = false -> σ.reaches goal

structure Scope.Full (σ : Scope) : Prop where
  adds (node : Node) : σ.adds node
  reaches (goal : Goal) : goal.isOperation = false -> σ.reaches goal

theorem Scope.Full.plain {σ : Scope} (full : σ.Full) : σ.Plain where
  adds node _ := full.adds node
  reaches goal hgoal := by
    apply full.reaches
    cases goal <;> first | rfl | cases hgoal

/--
Two readings that take the same steps in linked contexts, the second one behind the nodes of
an offset.
-/
inductive Parallel (d : Offset) (σ : Scope) :
    {α β : Type} → (α → β) → Facts → Attempt α → Attempt β → Facts → Prop where
  | pure {α β : Type} (v : α → β) (k : Facts) (a : α) :
      Parallel d σ v k (fun _ => pure a) (fun _ => pure (v a)) k
  | bind {α β γ δ : Type} {u : α → β} {v : γ → δ} {k m l : Facts} {x : Attempt α} {x' : Attempt β}
      {f : α → Attempt γ} {f' : β → Attempt δ} :
      Parallel d σ u k x x' m ->
      (forall a, Parallel d σ v m (f a) (f' (u a)) l) ->
      Parallel d σ v k (fun reach => x reach >>= fun a => f a reach)
        (fun reach => x' reach >>= fun b => f' b reach) l
  | weaken {α β : Type} {v : α → β} {k k' l l' : Facts} {x : Attempt α} {x' : Attempt β} :
      Parallel d σ v k x x' l ->
      k'.Covers k ->
      l.Covers l' ->
      Parallel d σ v k' x x' l'
  | position {α β : Type} {v : α → β} {k l : Facts} {f : Nat → Attempt α} {f' : Nat → Attempt β} :
      (forall start start', σ.starts start start' ->
        Parallel d σ v k (f start) (f' start') l) ->
      Parallel d σ v k (fun reach => position >>= fun start => f start reach)
        (fun reach => position >>= fun start => f' start reach) l
  | look {α β : Type} {v : α → β} {k l m : Facts} {f : Token → Attempt α} {f' : Token → Attempt β}
      (c c' : Context) (stays : Token → Bool) :
      σ.link c c' ->
      m.moved = true ->
      m.Covers l ->
      (forall t t', stays t' = true -> k.Near t t' ->
        Parallel d σ v k.unseen (f t) (f' t') l) ->
      (forall t t', stays t' = false -> k.Alike t t' -> forall k' : Facts, k.Leaves k' ->
        Parallel d σ v (k'.seeing t.kind) (f t) (f' t') m) ->
      Parallel d σ v k (fun reach => peek c >>= fun t => f t reach)
        (fun reach => peek c' >>= fun t => f' t reach) l
  | advance {k : Facts} (c c' : Context) (kind : TokenKind) :
      σ.link c c' ->
      k.next = some kind ->
      kind ≠ .endOfText ->
      (kind = .keyword .inWord -> k.agreed = true) ->
      (kind.isSlash = true -> k.inside = true) ->
      Parallel d σ id k (fun _ => advance c) (fun _ => advance c') (.behind kind)
  | add (k : Facts) (c c' : Context) (start start' : Nat) (node : Node) :
      σ.link c c' ->
      σ.starts start start' ->
      σ.adds node ->
      node.takesSemicolon = false ->
      Parallel d σ d.id k (fun _ => addSince c start node)
        (fun _ => addSince c' start' (node.map d.id)) k
  | finish {α β : Type} {u : α → β} {k m : Facts} {front : Attempt α} {front' : Attempt β}
      (c c' : Context) (ending : Ending) (node : α → Node) (node' : β → Node) :
      σ.link c c' ->
      k.moved = false ->
      Parallel d σ u k front front' m ->
      (forall a, node' (u a) = (node a).map d.id) ->
      (ending = .optional -> forall a, (node a).takesSemicolon = false) ->
      (forall a, (node a).isExpression = false) ->
      m.moved = true ->
      m.unended = true ->
      m.closed = true ->
      Parallel d σ d.id k (fun reach => endedBy c ending node (front reach))
        (fun reach => endedBy c' ending node' (front' reach)) .ended
  | name (k : Facts) (c c' : Context) (what : Expectation) :
      σ.link c c' ->
      Parallel d σ d.id k (fun _ => newName c what) (fun _ => newName c' what) .read
  | fail {α β : Type} (v : α → β) (k l : Facts) (c c' : Context) (fault : SyntaxFault) :
      σ.link c c' ->
      Parallel d σ v k (fun _ => fail c fault) (fun _ => fail c' fault) l
  | closing (k : Facts) (c c' : Context) (mark : Punctuator) (what : Expectation) :
      σ.link c c' ->
      mark ≠ .semicolon ->
      (TokenKind.punctuator mark).isSlash = false ->
      Parallel d σ id k (fun _ => expectClosing c mark what)
        (fun _ => expectClosing c' mark what) .read
  | closedByEnd {α β : Type} (v : α → β) (k l : Facts) (c c' : Context) (atEnd : Bool) (a : α)
      (what : Expectation) (fault : SyntaxFault) :
      σ.link c c' ->
      Parallel d σ v k
        (fun _ =>
          if atEnd && c.options.recover then do
            warnClosedByEnd c what
            return a
          else Grammar.fail c fault)
        (fun _ =>
          if atEnd && c'.options.recover then do
            warnClosedByEnd c' what
            return v a
          else Grammar.fail c' fault) l
  | missing {k l : Facts} (c c' : Context) {x x' : Attempt NodeId} :
      σ.link c c' ->
      Parallel d σ d.id k x x' l ->
      Parallel d σ d.id k
        (fun reach => if c.options.recover then missingStatementRule c else x reach)
        (fun reach => if c'.options.recover then missingStatementRule c' else x' reach) l
  | nested {α β : Type} {v : α → β} {k l : Facts} (c c' : Context) {x : Context → Attempt α}
      {x' : Context → Attempt β} :
      σ.link c c' ->
      Parallel d σ v k (x c.deeper) (x' c'.deeper) l ->
      Parallel d σ v k (fun reach => nested c fun deeper => x deeper reach)
        (fun reach => nested c' fun deeper => x' deeper reach) l
  | label {k l : Facts} (c c' : Context) {x x' : Nat → NodeId → Attempt NodeId}
      {y y' : Attempt NodeId} :
      σ.link c c' ->
      k.next = some .identifier ->
      (forall start start' name, σ.starts start start' ->
        Parallel d σ d.id .read (x start name) (x' start' (d.id name)) l) ->
      (forall k' : Facts, Parallel d σ d.id (k'.seeing .identifier) y y' l) ->
      l.moved = true ->
      Parallel d σ d.id k
        (fun reach => labeledOr c (fun start name => x start name reach) (y reach))
        (fun reach => labeledOr c' (fun start name => x' start name reach) (y' reach)) l
  | reach {k : Facts} (goal : Goal) (start' : Nat) (c c' : Context) (agreed : Bool) :
      σ.link c c' ->
      σ.reaches goal ->
      (goal.isTail = true -> σ.starts goal.start start') ->
      (goal.isWordy = true -> k.agreed = true) ->
      (agreed = true -> c'.allowIn = c.allowIn ∧ goal.mayBeEmpty = false) ->
      Parallel d σ (goal.placedResult d start') k (fun reach => reach goal c)
        (fun reach => reach (goal.placed d start') c') (k.after goal agreed)

end Grammar
end ScriptHints
