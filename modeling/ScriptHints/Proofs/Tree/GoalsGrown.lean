import ScriptHints.Proofs.Reader.ExpressionRules
import ScriptHints.Proofs.Tree.Grown

/-!
# What goals grow

What holds of the nodes that a goal of the grammar gives, of the forest that they are the
roots of, and of the token that comes next. Most goals begin with nothing read; the rest of
an operation or of an access begins behind its left operand.
-/

namespace ScriptHints
namespace Grammar

open Syntax Token

structure Rooted (floor : Nat) (ids : List NodeId) (f : Forest) : Prop where
  roots : f.roots = ids
  tight : forall n, n ∈ f.rootNodes -> floor ≤ n.tightness

theorem Rooted.tree {floor : Nat} {id : NodeId} {n : Node} (first stop : Nat) (below : Forest)
    (h : floor ≤ n.tightness) : Rooted floor [id] (.tree id n first stop below) where
  roots := rfl
  tight := by
    intro n' hn'
    rw [List.mem_singleton.mp hn']
    exact h

theorem Rooted.nil (floor : Nat) : Rooted floor [] .nil where
  roots := rfl
  tight := nofun

theorem Rooted.append {floor : Nat} {ids ids' : List NodeId} {f g : Forest}
    (hf : Rooted floor ids f) (hg : Rooted floor ids' g) :
    Rooted floor (ids ++ ids') (f ++ g) where
  roots := by rw [Forest.roots_append, hf.roots, hg.roots]
  tight := by
    intro n hn
    rw [Forest.rootNodes_append] at hn
    rcases List.mem_append.mp hn with hleft | hright
    · exact hf.tight n hleft
    · exact hg.tight n hright

theorem Rooted.mono {floor floor' : Nat} {ids : List NodeId} {f : Forest}
    (h : Rooted floor ids f) (hle : floor' ≤ floor) : Rooted floor' ids f where
  roots := h.roots
  tight n hn := hle.trans (h.tight n hn)

theorem Rooted.exists_tree {floor : Nat} {id : NodeId} {f : Forest} (h : Rooted floor [id] f) :
    exists n first stop below, f = .tree id n first stop below ∧ floor ≤ n.tightness := by
  rcases h with ⟨hroots, htight⟩
  cases f with
  | nil => cases hroots
  | node id' n first stop below more =>
      injection hroots with hid hmore
      cases more with
      | node => cases hmore
      | nil =>
          rw [hid]
          exact ⟨n, first, stop, below, rfl, htight n List.mem_cons_self⟩

namespace Goal

def ids : (goal : Goal) → goal.Result → List NodeId
  | .statements _, ids => ids
  | .variables, ids => ids
  | .cases, ids => ids
  | .parameters, ids => ids
  | .sequenceTail, ids => ids
  | .arguments, ids => ids
  | .properties, ids => ids
  | .elements, ids => ids.filterMap id
  | .statement, id => [id]
  | .branch, id => [id]
  | .expression, id => [id]
  | .assignment, id => [id]
  | .binary _, id => [id]
  | .binaryTail _ _ _, id => [id]
  | .unary, id => [id]
  | .member _, id => [id]
  | .memberTail _ _ _, id => [id]

def floor : Goal → Nat
  | .sequenceTail | .assignment | .arguments | .elements => 1
  | .binary floor | .binaryTail floor _ _ => min (3 + floor) 13
  | .unary => 13
  | .member _ | .memberTail _ _ _ => 14
  | _ => 0

def StopsAt (c : Context) (kind : TokenKind) : Goal → Prop
  | .statements listEnd => kind = .endOfText ∨ listEnd.covers kind = true
  | .binary floor | .binaryTail floor _ _ =>
      forall operator, operatorAt? c kind = some operator -> operator.precedence ≤ floor
  | .member calls | .memberTail calls _ _ =>
      kind ≠ .punctuator .dot ∧ kind ≠ .punctuator .openBracket ∧
        (calls = true -> kind ≠ .punctuator .openParen)
  | _ => True

def callFree : Goal → Bool
  | .member calls | .memberTail calls _ _ => !calls
  | _ => false

def begins : Goal → Bool
  | .binaryTail _ _ _ | .memberTail _ _ _ => false
  | _ => true

structure Reached (goal : Goal) (c : Context) (a : goal.Result) (f : Forest) (s : State) :
    Prop where
  rooted : Rooted goal.floor (goal.ids a) f
  stops : goal.StopsAt c (c.next s).kind
  free : goal.callFree = true -> f.callFree = true

def Entered (goal : Goal) (c : Context) (s₀ s : State) (f : Forest) : Prop :=
  match goal with
  | .binaryTail floor start left =>
      start = s₀.position ∧ Rooted (min (3 + floor) 13) [left] f ∧
        forall operator, operatorAt? c (c.next s).kind = some operator ->
          Rooted (2 + operator.precedence) [left] f
  | .memberTail calls start front =>
      start = s₀.position ∧ Rooted 14 [front] f ∧ (calls = false -> f.callFree = true) ∧
        (goal.StopsAt c (c.next s).kind ∨ Rooted 15 [front] f)
  | _ => s₀ = s ∧ f = .nil

end Goal

theorem Since.start {c : Context} (ended : c.stream.Ended) (s : State) :
    Since c.base s s .nil :=
  Since.refl (b := c.base) ended s

def Strategy.Growing (reach : Strategy) : Prop :=
  forall goal c s₀ s f, Since c.base s₀ s f -> goal.Entered c s₀ s f ->
    Grows c s₀ (reach goal c) s (goal.Reached c)

theorem Strategy.Growing.fresh {reach : Strategy} (h : reach.Growing) (goal : Goal)
    (hbegins : goal.begins = true) {c : Context} (c' : Context) (hbase : c'.base = c.base)
    (ended : c.stream.Ended) (s : State) :
    Grows c s (reach goal c') s (goal.Reached c') := by
  have hentered : goal.Entered c' s s .nil := by
    cases goal <;> first | exact ⟨rfl, rfl⟩ | cases hbegins
  have hstart : Since c'.base s s .nil := by
    rw [hbase]
    exact .start ended s
  have hgrows := h goal c' s s .nil hstart hentered
  unfold Grows at hgrows ⊢
  rw [hbase] at hgrows
  exact hgrows

theorem Strategy.Growing.insideOnward {reach : Strategy} (h : reach.Growing) {c : Context}
    {s₀ s : State} {f : Forest} (hgrown : Since c.base s₀ s f) (goal : Goal)
    (hbegins : goal.begins = true) (c' : Context) (hbase : c'.base = c.base)
    {k : goal.Result → Reader α} {post : α → Forest → State → Prop}
    (hk : forall a g s', s.position ≤ s'.position -> Since c.base s₀ s' (f ++ g) ->
      goal.Reached c' a g s' -> Grows c s₀ (k a) s' post) :
    Grows c s₀ (reach goal c' >>= k) s post :=
  .insideOnward hgrown (h.fresh goal hbegins c' hbase hgrown.ended s) hk

theorem Strategy.Growing.inside {reach : Strategy} (h : reach.Growing) {c : Context}
    {s₀ s : State} {f : Forest} (hgrown : Since c.base s₀ s f) (goal : Goal)
    (hbegins : goal.begins = true) (c' : Context) (hbase : c'.base = c.base)
    {k : goal.Result → Reader α} {post : α → Forest → State → Prop}
    (hk : forall a g s', Since c.base s₀ s' (f ++ g) -> goal.Reached c' a g s' ->
      Grows c s₀ (k a) s' post) :
    Grows c s₀ (reach goal c' >>= k) s post :=
  h.insideOnward hgrown goal hbegins c' hbase fun a g s' _ => hk a g s'

/-!
## Tokens that are no operands
-/

theorem isOperand_of_assignment {kind : TokenKind} {operator : AssignmentOperator}
    (h : AssignmentOperator.ofKind? kind = some operator) : kind.isOperand = false := by
  rw [AssignmentOperator.ofKind?_eq_some_iff] at h
  rw [← h]
  cases operator <;> rfl

theorem isOperand_of_operatorAt? {c : Context} {kind : TokenKind} {operator : BinaryOperator}
    (h : operatorAt? c kind = some operator) : kind.isOperand = false := by
  have hkind := (Option.filter_eq_some_iff.mp h).1
  rw [BinaryOperator.ofKind?_eq_some_iff] at hkind
  rw [← hkind]
  cases operator <;> rfl

theorem isOperand_of_unary {kind : TokenKind} {operator : UnaryOperator}
    (h : UnaryOperator.ofKind? kind = some operator) : kind.isOperand = false := by
  rw [UnaryOperator.ofKind?_eq_some_iff] at h
  rw [← h]
  cases operator <;> rfl

theorem isOperand_of_update {kind : TokenKind} {operator : UpdateOperator}
    (h : UpdateOperator.ofKind? kind = some operator) : kind.isOperand = false := by
  rw [UpdateOperator.ofKind?_eq_some_iff] at h
  rw [← h]
  cases operator <;> rfl

/-!
## Operands of one token
-/

theorem holds_of_operand? {t : Token} {node : Node} (h : operand? t = some node) :
    node.Holds t := by
  unfold operand? keyLiteral? at h
  split at h
  next hkind => cases h; exact ⟨by rw [hkind]; rfl, rfl⟩
  next hkind => cases h; exact hkind
  next hkind => cases h; exact hkind
  next hkind => cases h; exact hkind
  next hkind => cases h; exact hkind
  next =>
    split at h
    next hkind => cases h; exact ⟨hkind, rfl⟩
    next hkind => cases h; exact ⟨hkind, rfl⟩
    next => cases h

theorem tightness_of_isLeaf {n : Node} (h : n.isLeaf = true) : n.tightness = 15 := by
  cases n <;> first | rfl | cases h

theorem callFree_of_isLeaf {n : Node} (h : n.isLeaf = true) {id : NodeId} {first stop : Nat}
    {below : Forest} : (Forest.tree id n first stop below).callFree = true := by
  cases n <;> first | rfl | cases h

end Grammar
end ScriptHints
