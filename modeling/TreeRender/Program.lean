import TreeRender.Config.Basic
import TreeRender.Log
import TreeRender.Node.Basic

/-!
# Programs

A program says what the functions named in a tree do. Functions read and change a state `σ` of their
own, and may write log lines. A producer and a computed text are one step each. A provider may have
nodes resolved on its way and goes on with what comes of them, so it is a `Script`: each call takes
finitely many turns.
-/

namespace TreeRender

/-- Why a function delivered nothing: it said so, or it panicked, with a text for a payload or with
some other one. -/
inductive Failure where
  | refused (reason : String)
  | panicked (payload : Option String)

def panicText : Option String → String
  | none => "panicked"
  | some message => "panicked: " ++ message

def Failure.toError : Failure → CallError
  | .refused reason => ⟨reason⟩
  | .panicked payload => ⟨panicText payload⟩

/-- The rest of a provider's call, up to its end or to the next node that it has resolved. -/
inductive Script (F σ : Type) where
  | finish (outcome : Logged (Except Failure (Node F) × σ))
  | resolve (request : Logged (Node F × σ)) (resume : Node F → σ → Script F σ)

structure Program (F σ : Type) where
  produce : (name : F) → σ → Logged (Except Failure (Node F) × σ)
  /-- A provider gets its depth and the configuration. -/
  provide : (name : F) → (depth : Nat) → Config → σ → Script F σ
  /-- A computed text comes out, or a panic. -/
  compute : (name : F) → σ → Logged (Except (Option String) String × σ)

end TreeRender
