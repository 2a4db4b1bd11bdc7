import TreeRender.Json.Parser

/-!
# Values that nobody reads

They have to be JSON, but may be nested without limit, and it does not matter which strings and
numbers they hold.
-/

namespace TreeRender.Json.Reader

/-- Digits of which there has to be one at least. -/
def skipSomeDigits : Reader Unit := do
  if (← countDigits) = 0 then fail .malformed

def skipExponent : Reader Unit := do
  if isExponentMark (← peek?) then
    skip 1
    let c ← peek?
    if c = some '+' || c = some '-' then skip 1
    skipSomeDigits

/-- A number that only has to have the right form. -/
def skipNumber : Reader Unit := do
  if (← peek?) = some '-' then skip 1
  let c ← peek?
  let count ← countDigits
  if count = 0 || (c = some '0' && 1 < count) then fail .malformed
  if (← peek?) = some '.' then
    skip 1
    skipSomeDigits
  skipExponent

inductive Bracket where
  | array
  | object
  deriving DecidableEq

/-- The key before a skipped value of an object. -/
def skipKey : Reader Unit := do
  match ← peekToken? with
  | none => fail .truncated
  | some c =>
    if c ≠ '"' then fail .malformed
    else
      skip 1
      skipStringRest
      colon

/-- What is open after a value, or after the opening of a bracket if `fresh`: closing brackets are
taken until another value follows. -/
def afterSkipped : (openBrackets : List Bracket) → (fresh : Bool) → Reader (List Bracket)
  | [], _ => return []
  | bracket :: outer, fresh => do
    match ← peekToken? with
    | none => fail .truncated
    | some c =>
      if c = (match bracket with | .array => ']' | .object => '\x7d') then
        skip 1
        afterSkipped outer false
      else
        if !fresh then
          if c = ',' then skip 1 else fail .malformed
        if bracket = .object then skipKey
        return bracket :: outer

/-- Passes over a value inside of the brackets that are open. Each round takes a character. -/
def skipRounds : (rounds : Nat) → (openBrackets : List Bracket) → Reader Unit
  | 0, _ => fail .truncated
  | rounds + 1, openBrackets => do
    match ← peekToken? with
    | none => fail .truncated
    | some c =>
      let (openBrackets, fresh) ← (do
        if c = 'n' then
          skip 1
          word ['u', 'l', 'l']
          return (openBrackets, false)
        else if c = 't' then
          skip 1
          word ['r', 'u', 'e']
          return (openBrackets, false)
        else if c = 'f' then
          skip 1
          word ['a', 'l', 's', 'e']
          return (openBrackets, false)
        else if c = '-' || c.isDigit then
          skipNumber
          return (openBrackets, false)
        else if c = '"' then
          skip 1
          skipStringRest
          return (openBrackets, false)
        else if c = '[' then
          skip 1
          return (.array :: openBrackets, true)
        else if c = '\x7b' then
          skip 1
          return (.object :: openBrackets, true)
        else fail .malformed : Reader (List Bracket × Bool))
      match ← afterSkipped openBrackets fresh with
      | [] => return ()
      | stillOpen => skipRounds rounds stillOpen

def skipValue : Reader Unit := do skipRounds ((← get).length + 1) []

end TreeRender.Json.Reader
