import ScriptHints.Grammar.Recovery

/-!
# Readers that keep their settings in the state

The rules of the grammar hand down whether `in` is an operator and how deep a reading is
nested. Here both are fields of the state, next to the position and the tree, and there is
only one of each. A part that needs another setting saves the old one, sets its own, reads,
and puts the old one back, also behind a reading that failed.

A reader keeps the settings if it reads like a reader of the grammar to which they are
handed down and leaves them as they were, however it ends.
-/

namespace ScriptHints
namespace Grammar
namespace Stateful

open Syntax Token

/-- What a reading never changes. -/
structure Source where
  text : List Char
  stream : TokenStream
  options : Options

structure Settings where
  allowIn : Bool
  depth : Nat
deriving DecidableEq, Repr

def Settings.initial : Settings :=
  { allowIn := true, depth := 0 }

structure State extends Grammar.State, Settings

abbrev Reader :=
  EStateM SyntaxError State

def Source.context (src : Source) (σ : Settings) : Context :=
  { text := src.text, stream := src.stream, options := src.options, allowIn := σ.allowIn,
    depth := σ.depth }

/-- Steps that do not ask for the settings are taken with any. -/
instance : Coe Source Context :=
  ⟨fun src => src.context Settings.initial⟩

/-- A result with settings beside the state. -/
def withSettings (σ : Settings) :
    EStateM.Result SyntaxError Grammar.State α → EStateM.Result SyntaxError State α
  | .ok a s => .ok a ⟨s, σ⟩
  | .error e s => .error e ⟨s, σ⟩

/-- A step of the grammar that knows of no settings. -/
instance : MonadLift Grammar.Reader Reader :=
  ⟨fun read s => withSettings s.toSettings (read s.toState)⟩

/-!
## Changes of the settings
-/

/-- Changes the settings, reads, and changes them again, however the reading ends. -/
def between (enter leave : Settings → Settings) (read : Reader α) : Reader α := do
  modify fun s => { s with toSettings := enter s.toSettings }
  try
    read
  finally
    modify fun s => { s with toSettings := leave s.toSettings }

def withIn (allowed : Bool) (read : Reader α) : Reader α := do
  let saved := (← get).allowIn
  between (fun σ => { σ with allowIn := allowed }) (fun σ => { σ with allowIn := saved }) read

def nested (src : Source) (read : Reader α) : Reader α := do
  if nestingLimit ≤ (← get).depth then
    fail src .tooDeep
  else
    between (fun σ => { σ with depth := σ.depth + 1 }) (fun σ => { σ with depth := σ.depth - 1 })
      read

/-- During recovery a failed reading is reported and its statement skipped. -/
def recovering (src : Source) (read : Reader NodeId) : Reader NodeId := do
  if src.options.recover then
    let start ← position
    tryCatch read fun e => do
      let first ← Machine.look src.stream start
      report src .error e.message (Span.ofToken first)
      skipStatement src start
  else
    read

/-!
## Readers that keep the settings
-/

/-- With these settings a reader reads like one of the grammar, and it leaves the settings. -/
def Restores (σ : Settings) (x : Reader α) (y : Grammar.Reader α) : Prop :=
  forall s : Grammar.State, x ⟨s, σ⟩ = withSettings σ (y s)

namespace Restores

variable {σ : Settings} {src : Source}

theorem lift (y : Grammar.Reader α) : Restores σ (liftM y) y :=
  fun _ => rfl

theorem pure (a : α) : Restores σ (Pure.pure a) (Pure.pure a) :=
  fun _ => rfl

theorem bind {x : Reader α} {y : Grammar.Reader α} {f : α → Reader β} {g : α → Grammar.Reader β}
    (hx : Restores σ x y) (hf : forall a, Restores σ (f a) (g a)) :
    Restores σ (x >>= f) (y >>= g) := by
  intro s
  have hstart := hx s
  show EStateM.bind x f ⟨s, σ⟩ = withSettings σ (EStateM.bind y g s)
  unfold EStateM.bind
  rw [hstart]
  cases y s with
  | ok a s₁ => exact hf a s₁
  | error e s₁ => rfl

theorem bind_pure {x : Reader α} {a : α} {f : α → Reader β} {y : Grammar.Reader β}
    (hx : Restores σ x (Pure.pure a)) (hf : Restores σ (f a) y) : Restores σ (x >>= f) y := by
  have hboth : Restores σ (x >>= f) (Pure.pure a >>= fun _ => y) := by
    intro s
    have hstart := hx s
    show EStateM.bind x f ⟨s, σ⟩ = _
    unfold EStateM.bind
    rw [hstart]
    exact hf s
  exact hboth

theorem map {x : Reader α} {y : Grammar.Reader α} (f : α → β) (hx : Restores σ x y) :
    Restores σ (f <$> x) (f <$> y) := by
  intro s
  have hstart := hx s
  show EStateM.map f x ⟨s, σ⟩ = withSettings σ (EStateM.map f y s)
  unfold EStateM.map
  rw [hstart]
  cases y s <;> rfl

/-- The settings are what they were, if the reading in between keeps those that it finds. -/
theorem between (enter leave : Settings → Settings) (hback : leave (enter σ) = σ)
    {x : Reader α} {y : Grammar.Reader α} (hx : Restores (enter σ) x y) :
    Restores σ (between enter leave x) y := by
  intro s
  have hinside := hx s
  show EStateM.map Prod.fst (tryFinally' x fun _ => _) ⟨s, enter σ⟩ = _
  simp only [EStateM.map, tryFinally', hinside]
  cases y s with
  | ok a s₁ => exact congrArg (fun τ => EStateM.Result.ok a (State.mk s₁ τ)) hback
  | error e s₁ => exact congrArg (fun τ => EStateM.Result.error e (State.mk s₁ τ)) hback

theorem withIn {x : Reader α} {y : Grammar.Reader α} {allowed : Bool}
    (hx : Restores { σ with allowIn := allowed } x y) : Restores σ (withIn allowed x) y :=
  between (fun τ => { τ with allowIn := allowed }) (fun τ => { τ with allowIn := σ.allowIn }) rfl hx

theorem nested {x : Reader α} {read : Context → Grammar.Reader α}
    (hx : Restores { σ with depth := σ.depth + 1 } x
      (read (src.context { σ with depth := σ.depth + 1 }))) :
    Restores σ (nested src x) (Grammar.nested (src.context σ) read) := by
  intro s
  show (if nestingLimit ≤ σ.depth then _ else _ : Reader α) ⟨s, σ⟩ =
    withSettings σ ((if nestingLimit ≤ σ.depth then _ else _ : Grammar.Reader α) s)
  split
  · rfl
  · exact between (fun τ => { τ with depth := τ.depth + 1 })
      (fun τ => { τ with depth := τ.depth - 1 }) rfl hx s

theorem attempt {x : Reader α} {y : Grammar.Reader α} {handle : SyntaxError → Reader α}
    {handle' : SyntaxError → Grammar.Reader α} (hx : Restores σ x y)
    (hhandle : forall e, Restores σ (handle e) (handle' e)) :
    Restores σ (tryCatch x handle) (tryCatch y handle') := by
  intro s
  have hstart := hx s
  show EStateM.tryCatch x handle ⟨s, σ⟩ = withSettings σ (EStateM.tryCatch y handle' s)
  unfold EStateM.tryCatch
  rw [hstart]
  cases y s with
  | ok a s₁ => rfl
  | error e s₁ => exact hhandle e s₁

theorem skipTokens_eq (σ τ : Settings) (start left opened : Nat) :
    skipTokens (src.context σ) start left opened =
    skipTokens (src.context τ) start left opened := by
  induction left generalizing opened with
  | zero => rfl
  | succ left ih =>
      unfold skipTokens
      simp only [ih]
      rfl

theorem skipStatement_eq (σ τ : Settings) (start : Nat) :
    skipStatement (src.context σ) start = skipStatement (src.context τ) start := by
  unfold skipStatement
  show (_ >>= fun _ => skipTokens (src.context σ) start (src.stream.size - start) 0 >>= _) = _
  rw [skipTokens_eq σ τ]
  rfl

theorem recovering {x : Reader NodeId} {y : Grammar.Reader NodeId} (hx : Restores σ x y) :
    Restores σ (recovering src x) (Grammar.recovering (src.context σ) y) := by
  unfold Stateful.recovering Grammar.recovering
  show Restores σ (if src.options.recover then _ else _) (if src.options.recover then _ else _)
  split
  · refine (lift position).bind fun start => hx.attempt fun e => ?_
    rw [skipStatement_eq Settings.initial σ]
    exact (lift _).bind fun first => (lift _).bind fun _ => lift _
  · exact hx

end Restores

end Stateful
end Grammar
end ScriptHints
