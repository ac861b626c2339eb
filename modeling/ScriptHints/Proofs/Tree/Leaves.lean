import ScriptHints.Grammar.Expression
import ScriptHints.Proofs.Reader.Outcome
import ScriptHints.Proofs.Tree.Grouping
import ScriptHints.Proofs.Token.Ended

/-!
# Leaves and the tokens they were read from

Some tokens are operands: names, literals, `null` and `this`. Every operand ends up in a
leaf of the tree, and so does every reserved word that stands as a name; a skipped
statement is a leaf for all of its tokens. A forest covers a run of tokens when its leaves
come from these tokens in their order and no operand is left out.
-/

namespace ScriptHints

open Token

def Token.TokenKind.isOperand : TokenKind → Bool
  | .identifier | .number _ | .string _ | .boolean _ | .regExp _ _ => true
  | .keyword word => word = .nullWord || word = .thisWord
  | .punctuator _ | .endOfText => false

/-- Words are names, where the grammar wants one, whatever else they are elsewhere. -/
def Token.TokenKind.isName : TokenKind → Bool
  | .identifier | .keyword _ | .boolean _ => true
  | _ => false

namespace Syntax

def Node.isLeaf : Node → Bool
  | .identifier _ | .number _ _ | .string _ _ | .boolean _ | .nullValue | .thisValue
  | .regExp _ _ | .skipped _ => true
  | _ => false

theorem Node.children_of_isLeaf (n : Node) (h : n.isLeaf = true) : n.children = [] := by
  cases n <;> first | rfl | cases h

theorem Node.isJoined_of_isLeaf (n : Node) (h : n.isLeaf = true) : n.isJoined = false := by
  cases n <;> first | rfl | cases h

theorem Node.groups_of_isLeaf (n : Node) (h : n.isLeaf = true) : n.Groups [] := by
  cases n <;> trivial

def Node.Holds : Node → Token → Prop
  | .identifier name, t => t.kind.isName = true ∧ t.lexeme = name
  | .number value raw, t => t.kind = .number value ∧ t.lexeme = raw
  | .string value quote, t => t.kind = .string value ∧ Grammar.quoteOf t.lexeme = quote
  | .boolean value, t => t.kind = .boolean value
  | .regExp pattern flags, t => t.kind = .regExp pattern flags
  | .nullValue, t => t.kind = .keyword .nullWord
  | .thisValue, t => t.kind = .keyword .thisWord
  | _, _ => False

theorem Node.Holds.isLeaf {n : Node} {t : Token} (h : n.Holds t) : n.isLeaf = true := by
  cases n <;> first | rfl | exact h.elim

def Node.adopts : Node → Bool
  | .script _ | .object _ | .array _ | .variables _ _ | .block _ | .empty | .switchCase _ _
  | .breakOff _ | .continueOn _ | .returnValue _ => false
  | .sequence expressions => !expressions.isEmpty
  | n => !n.isLeaf

theorem Node.isLeaf_of_adopts {n : Node} (h : n.adopts = true) : n.isLeaf = false := by
  cases n <;> first | rfl | cases h

theorem Node.children_ne_nil_of_adopts {n : Node} (h : n.adopts = true) : n.children ≠ [] := by
  cases n with
  | sequence expressions =>
      cases expressions with
      | nil => cases h
      | cons => exact List.cons_ne_nil _ _
  | function name params body declaration => simp [Node.children]
  | forLoop initializer condition step body => simp [Node.children]
  | _ => first | exact List.cons_ne_nil _ _ | cases h

end Syntax

namespace Grammar

open Syntax

/-!
## Tokens without operands
-/

def Quiet (stream : TokenStream) (first stop : Nat) : Prop :=
  first ≤ stop ∧ forall i, first ≤ i -> i < stop -> (stream.get i).kind.isOperand = false

theorem Quiet.refl (stream : TokenStream) (position : Nat) : Quiet stream position position :=
  ⟨Nat.le_refl _, fun _ hfirst hstop => absurd hfirst (Nat.not_le_of_lt hstop)⟩

theorem Quiet.trans {stream : TokenStream} {first middle stop : Nat}
    (h : Quiet stream first middle) (h' : Quiet stream middle stop) :
    Quiet stream first stop := by
  refine ⟨h.1.trans h'.1, ?_⟩
  intro i hfirst hstop
  by_cases hi : i < middle
  · exact h.2 i hfirst hi
  · exact h'.2 i (Nat.le_of_not_lt hi) hstop

theorem Quiet.one {stream : TokenStream} {position : Nat}
    (h : (stream.get position).kind.isOperand = false) :
    Quiet stream position (position + 1) := by
  refine ⟨Nat.le_succ _, ?_⟩
  intro i hfirst hstop
  have hi : i = position := by omega
  rw [hi]
  exact h

/-!
## Leaves over tokens
-/

/-- A leaf was made from the tokens from `first` up to, but without, `stop`. -/
def LeafOver (c : Context) (n : Node) (first stop : Nat) : Prop :=
  match n with
  | .skipped text => first ≤ stop ∧ text = c.textOf first stop
  | n => stop = first + 1 ∧ n.Holds (c.stream.get first)

theorem leafOver_of_holds {c : Context} {n : Node} {first : Nat}
    (h : n.Holds (c.stream.get first)) : LeafOver c n first (first + 1) := by
  cases n <;> first | exact ⟨rfl, h⟩ | exact h.elim

def Covers (c : Context) : Nat → Forest → Nat → Prop
  | first, .nil, stop => Quiet c.stream first stop
  | first, .node _ n start behind below more, stop =>
      Quiet c.stream first start ∧
        (if n.isLeaf = true then LeafOver c n start behind ∧ below = .nil
          else Covers c start below behind) ∧
        Covers c behind more stop

theorem LeafOver.le {c : Context} {n : Node} {first stop : Nat} (h : LeafOver c n first stop) :
    first ≤ stop := by
  unfold LeafOver at h
  split at h
  · exact h.1
  · rw [h.1]
    exact Nat.le_succ first

variable {c : Context}

theorem Covers.le {first stop : Nat} {f : Forest} (h : Covers c first f stop) : first ≤ stop := by
  induction f generalizing first stop with
  | nil => exact h.1
  | node id n start behind below more ihBelow ihMore =>
      rcases h with ⟨hquiet, hinside, hmore⟩
      have hwidth : start ≤ behind := by
        split at hinside
        next => exact hinside.1.le
        next => exact ihBelow hinside
      exact hquiet.1.trans (hwidth.trans (ihMore hmore))

theorem Covers.width_le {id : NodeId} {n : Node} {first start behind stop : Nat}
    {below more : Forest} (h : Covers c first (.node id n start behind below more) stop) :
    start ≤ behind := by
  have hinside := h.2.1
  split at hinside
  next => exact hinside.1.le
  next => exact hinside.le

theorem Covers.behindQuiet {first middle stop : Nat} {f : Forest}
    (hquiet : Quiet c.stream first middle) (h : Covers c middle f stop) :
    Covers c first f stop := by
  cases f with
  | nil => exact hquiet.trans h
  | node id n start behind below more => exact ⟨hquiet.trans h.1, h.2⟩

theorem Covers.append {first middle stop : Nat} {f g : Forest} (hf : Covers c first f middle)
    (hg : Covers c middle g stop) : Covers c first (f ++ g) stop := by
  induction f generalizing first with
  | nil => exact hg.behindQuiet hf
  | node id n start behind below more _ ih =>
      rcases hf with ⟨hquiet, hinside, hmore⟩
      exact ⟨hquiet, hinside, ih hmore⟩

theorem Covers.quiet {first middle stop : Nat} {f : Forest} (h : Covers c first f middle)
    (hquiet : Quiet c.stream middle stop) : Covers c first f stop := by
  rw [← f.append_nil]
  exact h.append hquiet

/-!
## Wide nodes

Only at the end of the text a node may have been made from no token at all. Without recovery that is
so only for a text without tokens.
-/

def Context.edge (c : Context) : Nat :=
  if c.options.recover = true ∨ c.stream.size = 0 then c.stream.size else c.stream.size + 1

omit c in
theorem Context.size_le_edge (c : Context) : c.stream.size ≤ c.edge := by
  unfold edge
  split
  next => exact Nat.le_refl _
  next => exact Nat.le_succ _

theorem Context.edge_of_recover (h : c.options.recover = true) : c.edge = c.stream.size := by
  unfold edge
  rw [if_pos (.inl h)]

theorem Context.edge_of_strict (h : c.options.recover = false) (hsome : 0 < c.stream.size) :
    c.edge = c.stream.size + 1 := by
  have hnot : ¬ (c.options.recover = true ∨ c.stream.size = 0) := by
    rw [h]
    rintro (hfalse | hnone)
    · cases hfalse
    · omega
  unfold edge
  rw [if_neg hnot]

/-- Some token stands between two positions, or no token stands behind the first one. -/
def Wide (size first stop : Nat) : Prop :=
  first < stop ∨ size ≤ first

theorem Wide.around {size first start behind stop : Nat} (h : Wide size start behind)
    (hle : start ≤ behind) (hfirst : first ≤ start) (hstop : behind ≤ stop) :
    Wide size first stop := by
  unfold Wide at h ⊢
  omega

def AllWide (size : Nat) : Forest → Prop
  | .nil => True
  | .node _ _ first stop below more =>
      Wide size first stop ∧ AllWide size below ∧ AllWide size more

theorem AllWide.append {size : Nat} {f g : Forest} (hf : AllWide size f) (hg : AllWide size g) :
    AllWide size (f ++ g) := by
  induction f with
  | nil => exact hg
  | node id n first stop below more _ ih => exact ⟨hf.1, hf.2.1, ih hf.2.2⟩

theorem AllWide.mono {size size' : Nat} {f : Forest} (h : AllWide size' f) (hle : size ≤ size') :
    AllWide size f := by
  induction f with
  | nil => trivial
  | node id n first stop below more ihBelow ihMore =>
      exact ⟨h.1.imp_right hle.trans, ihBelow h.2.1, ihMore h.2.2⟩

theorem Covers.wide {size first stop : Nat} {f : Forest} (h : Covers c first f stop)
    (hwide : AllWide size f) (hroots : f.roots ≠ []) : Wide size first stop := by
  cases f with
  | nil => exact absurd rfl hroots
  | node id n start behind below more => exact hwide.1.around h.width_le h.1.1 h.2.2.le

end Grammar
end ScriptHints
