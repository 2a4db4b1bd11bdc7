/-!
# Errors and log lines

An invalid option is reported when a renderer is made. A render itself ends early only at the depth
limit or, where failures are to surface, at a failed function. Besides, rendering reports what it
had to leave out. A computation that may report is a `Logged` value: its result beside the lines written
on the way, so that no result can depend on what was logged before.
-/

namespace TreeRender

inductive ConfigError where
  | nonPositive (option : String)
  deriving DecidableEq

def ConfigError.message : ConfigError → String
  | .nonPositive option => "\x60" ++ option ++ "\x60 must be positive"

structure CallError where
  reason : String
  deriving DecidableEq

def CallError.message (e : CallError) : String := "producer failed: " ++ e.reason

inductive RenderError where
  | depthExceeded (depth maxDepth : Nat)
  | failed (cause : CallError)
  | config (cause : ConfigError)
  deriving DecidableEq

def RenderError.message : RenderError → String
  | .depthExceeded depth maxDepth =>
    "render depth " ++ toString depth ++ " exceeds the configured maximum of " ++ toString maxDepth
  | .failed cause => cause.message
  | .config cause => cause.message

inductive Level where
  | warn
  | error
  deriving DecidableEq

structure LogLine where
  level : Level
  message : String
  deriving DecidableEq

/-- A result and the log lines written while it was computed, oldest first. -/
structure Logged (α : Type) where
  value : α
  log : List LogLine := []

namespace Logged

variable {α β : Type}

protected def bind (x : Logged α) (f : α → Logged β) : Logged β :=
  let y := f x.value
  ⟨y.value, x.log ++ y.log⟩

instance : Monad Logged where
  pure a := ⟨a, []⟩
  bind := Logged.bind

@[simp] theorem value_pure (a : α) : (pure a : Logged α).value = a := rfl

@[simp] theorem log_pure (a : α) : (pure a : Logged α).log = [] := rfl

@[simp] theorem value_bind (x : Logged α) (f : α → Logged β) :
    (x >>= f).value = (f x.value).value := rfl

@[simp] theorem log_bind (x : Logged α) (f : α → Logged β) :
    (x >>= f).log = x.log ++ (f x.value).log := rfl

@[simp] theorem value_map (f : α → β) (x : Logged α) : (f <$> x).value = f x.value := rfl

@[ext] theorem ext {x y : Logged α} (value : x.value = y.value) (log : x.log = y.log) : x = y := by
  cases x
  cases y
  simp_all

instance : LawfulMonad Logged := LawfulMonad.mk' Logged
  (fun x => by ext1 <;> simp [Functor.map, Logged.bind])
  (fun a f => by ext1 <;> simp)
  (fun x f g => by ext1 <;> simp [List.append_assoc])

end Logged

def warn (message : String) : Logged Unit := ⟨(), [⟨.warn, message⟩]⟩

def error (message : String) : Logged Unit := ⟨(), [⟨.error, message⟩]⟩

@[simp] theorem value_warn (message : String) : (warn message).value = () := rfl

@[simp] theorem value_error (message : String) : (error message).value = () := rfl

end TreeRender
