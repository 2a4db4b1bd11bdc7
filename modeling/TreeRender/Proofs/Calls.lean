import TreeRender.Proofs.Evaluation

/-!
# Recorded calls

The functions of a program may keep a record of when they are called, in a state that they share.
The recorded program is such a one: it does as the program does, and lists its calls.
-/

namespace TreeRender

variable {F σ : Type}

/-- A call of a user function. A provider is told its depth. -/
inductive Call (F : Type) where
  | produce (name : F)
  | provide (name : F) (depth : Nat)
  | compute (name : F)
  deriving DecidableEq

/-- The state of the functions and the calls so far, oldest first. -/
abbrev Recorded (F σ : Type) := σ × List (Call F)

def Logged.recorded {α : Type} (x : Logged (α × σ)) (calls : List (Call F)) :
    Logged (α × Recorded F σ) := do
  let (a, s) ← x
  return (a, s, calls)

/-- A provider's call does nothing about the record, which nodes that it has resolved may change. -/
def Script.recorded : Script F σ → List (Call F) → Script F (Recorded F σ)
  | .finish outcome, calls => .finish (outcome.recorded calls)
  | .resolve request resume, calls =>
    .resolve (request.recorded calls) fun node (s, calls) => (resume node s).recorded calls

def Program.recorded (program : Program F σ) : Program F (Recorded F σ) where
  produce name := fun (s, calls) => (program.produce name s).recorded (calls ++ [.produce name])
  provide name depth config := fun (s, calls) =>
    (program.provide name depth config s).recorded (calls ++ [.provide name depth])
  compute name := fun (s, calls) => (program.compute name s).recorded (calls ++ [.compute name])

/-- Functions that count their calls together. Each gives the number of its call. -/
def Program.counting : Program F Nat where
  produce _ n := return (.ok (.text (.str (toString n))), n + 1)
  provide _ _ _ n := .finish (return (.ok (.text (.str (toString n))), n + 1))
  compute _ n := return (.ok (toString n), n + 1)

theorem Config.EvaluatesLike.recorded {program : Program F σ} {c d : Config}
    (h : c.EvaluatesLike program d) : c.EvaluatesLike program.recorded d where
  maxDepth := h.maxDepth
  throwOnError := h.throwOnError
  provide name depth s := by simp only [Program.recorded, h.provide]

end TreeRender
