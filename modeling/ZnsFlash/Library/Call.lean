import Mathlib.Tactic.Common

/-!
# Calls with an outcome

A call runs on a state and returns a value, returns an error, panics, or never returns.

* `Outcome`, `Call` with its monad, `Call.recover`: go on after an error only;
* `Call.bind_of_ok`, `Call.bind_of_err`, `Call.bind_of_panics`, `Call.bind_of_blocks`,
  `Call.recover_of_ok`, `Call.recover_of_err`, `Call.recover_of_blocks`: the rules for runs.
-/

/-- How a call ends. -/
inductive Outcome (ε α : Type)
  | ok (a : α)
  | err (e : ε)
  | panics
  | blocks
  deriving DecidableEq

/-- Calls on a state `σ` with errors `ε`. -/
def Call (σ ε α : Type) := σ → Outcome ε α × σ

namespace Call

variable {σ ε α β : Type}

/-- `f` runs on the value of `x` only. -/
protected def bind (x : Call σ ε α) (f : α → Call σ ε β) : Call σ ε β := fun s =>
  match x s with
  | (.ok a, s') => f a s'
  | (.err e, s') => (.err e, s')
  | (.panics, s') => (.panics, s')
  | (.blocks, s') => (.blocks, s')

instance : Monad (Call σ ε) where
  pure a := fun s => (.ok a, s)
  bind := Call.bind

def get : Call σ ε σ := fun s => (.ok s, s)

def modify (f : σ → σ) : Call σ ε Unit := fun s => (.ok (), f s)

def fail (e : ε) : Call σ ε α := fun s => (.err e, s)

/-- `x`, and `y` where `x` returned an error. -/
def recover (x y : Call σ ε α) : Call σ ε α := fun s =>
  match x s with
  | (.err _, s') => y s'
  | r => r

variable {x : Call σ ε α} {f : α → Call σ ε β} {s s' : σ} {a : α}

theorem bind_of_ok (h : x s = (.ok a, s')) : (x >>= f) s = f a s' := by
  change Call.bind x f s = _
  rw [Call.bind, h]

theorem bind_of_err {e : ε} (h : x s = (.err e, s')) : (x >>= f) s = (.err e, s') := by
  change Call.bind x f s = _
  rw [Call.bind, h]

theorem bind_of_panics (h : x s = (.panics, s')) : (x >>= f) s = (.panics, s') := by
  change Call.bind x f s = _
  rw [Call.bind, h]

theorem bind_of_blocks (h : x s = (.blocks, s')) : (x >>= f) s = (.blocks, s') := by
  change Call.bind x f s = _
  rw [Call.bind, h]

theorem recover_of_ok {y : Call σ ε α} (h : x s = (.ok a, s')) : recover x y s = (.ok a, s') := by
  rw [recover, h]

theorem recover_of_err {y : Call σ ε α} {e : ε} (h : x s = (.err e, s')) :
    recover x y s = y s' := by
  rw [recover, h]

theorem recover_of_blocks {y : Call σ ε α} (h : x s = (.blocks, s')) :
    recover x y s = (.blocks, s') := by
  rw [recover, h]

end Call
