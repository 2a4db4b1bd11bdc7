import TreeRender.Json.Value

/-!
# Readers of JSON text

Text is read from front to back and the first fault counts: the text ends too early, it is no JSON,
or it is JSON of the wrong shape.
-/

namespace TreeRender.Json

inductive Fault where
  | malformed
  | truncated
  | mismatched
  deriving DecidableEq

/-- A reader takes what it reads from the front of the text. -/
abbrev Reader := StateT (List Char) (Except Fault)

namespace Reader

def fail {α : Type} (fault : Fault) : Reader α := throw fault

def peek? : Reader (Option Char) := return (← get).head?

def skip (count : Nat) : Reader Unit := modify (·.drop count)

def isBlank (c : Char) : Bool := c = ' ' || c = '\n' || c = '\t' || c = '\r'

def skipBlanks : Reader Unit := modify (·.dropWhile isBlank)

/-- The next character that is not blank, which stays in the text. -/
def peekToken? : Reader (Option Char) := do skipBlanks; peek?

def word : List Char → Reader Unit
  | [] => pure ()
  | expected :: rest => do
    match ← get with
    | [] => fail .truncated
    | c :: after =>
      set after
      if c = expected then word rest else fail .malformed

end Reader

end TreeRender.Json
