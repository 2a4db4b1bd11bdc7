import TreeRender.Log

/-!
# Renders in progress

What one render has counted so far, and the state that the functions it calls work on. An error that
has to end the render may come up inside a provider, where it cannot be raised. It is left pending
until the provider returns; the first one wins.
-/

namespace TreeRender

structure Counters where
  elements : Nat := 0
  hits : Nat := 0
  misses : Nat := 0
  /-- Failures of user functions. -/
  errors : Nat := 0
  deriving DecidableEq

structure Scene (σ : Type) where
  state : σ
  counters : Counters := {}
  pending : Option RenderError := none
  /-- The depth of each call of a component, the latest first. -/
  callDepths : List Nat := []

abbrev Calls (σ α : Type) := StateT (Scene σ) Logged α

namespace Calls

variable {σ α β : Type}

def exec (x : Calls σ α) (s : Scene σ) : α × Scene σ := (x.run s).value

@[simp] theorem exec_pure (a : α) (s : Scene σ) : (pure a : Calls σ α).exec s = (a, s) := rfl

@[simp] theorem exec_bind (x : Calls σ α) (f : α → Calls σ β) (s : Scene σ) :
    (x >>= f).exec s = (f (x.exec s).1).exec (x.exec s).2 := rfl

@[simp] theorem exec_map (f : α → β) (x : Calls σ α) (s : Scene σ) :
    (f <$> x).exec s = (f (x.exec s).1, (x.exec s).2) := rfl

@[simp] theorem exec_get (s : Scene σ) : (get : Calls σ (Scene σ)).exec s = (s, s) := rfl

@[simp] theorem exec_modify (f : Scene σ → Scene σ) (s : Scene σ) :
    (modify f : Calls σ Unit).exec s = ((), f s) := rfl

@[simp] theorem exec_logged (x : Logged α) (s : Scene σ) :
    (liftM x : Calls σ α).exec s = (x.value, s) := rfl

end Calls

namespace Scene

variable {σ : Type}

def countError (s : Scene σ) : Scene σ :=
  { s with counters := { s.counters with errors := s.counters.errors + 1 } }

def countElement (s : Scene σ) : Scene σ :=
  { s with counters := { s.counters with elements := s.counters.elements + 1 } }

def countHit (s : Scene σ) : Scene σ :=
  { s with counters := { s.counters with hits := s.counters.hits + 1 } }

def countMiss (s : Scene σ) : Scene σ :=
  { s with counters := { s.counters with misses := s.counters.misses + 1 } }

/-- Enters the call of a component at `depth`. -/
def enterCall (depth : Nat) (s : Scene σ) : Scene σ :=
  { s with callDepths := depth :: s.callDepths }

/-- Leaves an error pending, unless there is one already. -/
def postpone (s : Scene σ) (e : RenderError) : Scene σ :=
  { s with pending := s.pending.or (some e) }

end Scene

end TreeRender
