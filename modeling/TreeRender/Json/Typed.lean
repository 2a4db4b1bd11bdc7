import TreeRender.Json.Parser

/-!
# Values of a wanted type

A value of another type is a mismatch, unless it is no JSON in the first place.
-/

namespace TreeRender.Json.Reader

/-- The fault of a value of another type: its own, if it has one. -/
def mismatch {α : Type} : Reader α := do
  match ← peekToken? with
  | none => fail .truncated
  | some c =>
    if c = '[' || c = '\x7b' then fail .mismatched
    else
      let _ ← valueOver none
      fail .mismatched

/-- Reads what starts with `start`, and nothing else. -/
def startingWith {α : Type} (start : Char) (rest : Reader α) : Reader α := do
  if (← peekToken?) = some start then
    skip 1
    rest
  else mismatch

def string : Reader String := startingWith '"' stringRest

/-- The key of a member. Anything but a string is no JSON in its place. -/
def key : Reader String := do
  match ← peekToken? with
  | none => fail .truncated
  | some c =>
    if c = '"' then
      skip 1
      stringRest
    else fail .malformed

def nullRest : Reader Unit := word ['u', 'l', 'l']

def bool : Reader Bool := do
  match ← peekToken? with
  | some 't' =>
    skip 1
    word ['r', 'u', 'e']
    return true
  | some 'f' =>
    skip 1
    word ['a', 'l', 's', 'e']
    return false
  | _ => mismatch

/-- A natural number of 64 bits, written without point and exponent. -/
def natural : Reader Nat := do
  match ← peekToken? with
  | none => fail .truncated
  | some c =>
    if c = '-' || c.isDigit then
      match ← number with
      | .natural n => return n
      | _ => fail .mismatched
    else mismatch

def optional {α : Type} (reader : Reader α) : Reader (Option α) := do
  if (← peekToken?) = some 'n' then
    skip 1
    nullRest
    return none
  else return some (← reader)

end TreeRender.Json.Reader
