import TreeRender.Json.Numbers
import TreeRender.Json.Strings

/-!
# Reading JSON values

Arrays and objects, whole values, and whole texts.
-/

namespace TreeRender.Json

namespace Reader

/-- Whether another item of an array follows. The closing bracket is taken, and so is the comma
before an item that is not the first. -/
def hasItem (first : Bool) : Reader Bool := do
  match ← peekToken? with
  | none => fail .truncated
  | some c =>
    if c = ']' then
      skip 1
      return false
    else if first then return true
    else if c = ',' then
      skip 1
      match ← peekToken? with
      | none => fail .truncated
      | some c => if c = ']' then fail .malformed else return true
    else fail .malformed

/-- Whether another member of an object follows. The closing brace is taken, and so is the opening
quote of a key with the comma before it. -/
def hasMember (first : Bool) : Reader Bool := do
  match ← peekToken? with
  | none => fail .truncated
  | some c =>
    skip 1
    if c = '\x7d' then return false
    else if first then
      if c = '"' then return true else fail .malformed
    else if c = ',' then
      match ← peekToken? with
      | none => fail .truncated
      | some c =>
        skip 1
        if c = '"' then return true else fail .malformed
    else fail .malformed

def colon : Reader Unit := do
  match ← peekToken? with
  | none => fail .truncated
  | some c =>
    skip 1
    if c = ':' then return () else fail .malformed

/-- Items as long as there are any. Each takes a character at least. -/
def itemRounds {α : Type} (item : Reader α) : (rounds : Nat) → (first : Bool) → Reader (List α)
  | 0, _ => fail .truncated
  | rounds + 1, first => do
    if ← hasItem first then
      let a ← item
      let rest ← itemRounds item rounds false
      return a :: rest
    else return []

/-- The rest of an array after its opening bracket. -/
def itemsRest {α : Type} (item : Reader α) : Reader (List α) := do
  itemRounds item ((← get).length + 1) true

/-- Goes through the members of an object, where `member` gets a key and what came of the members
before. -/
def memberRounds {α : Type} (member : String → α → Reader α) :
    (rounds : Nat) → (first : Bool) → α → Reader α
  | 0, _, _ => fail .truncated
  | rounds + 1, first, a => do
    if ← hasMember first then
      let key ← stringRest
      memberRounds member rounds false (← member key a)
    else return a

/-- The rest of an object after its opening brace. -/
def membersRest {α : Type} (member : String → α → Reader α) (start : α) : Reader α := do
  memberRounds member ((← get).length + 1) true start

/-- A value, given a reader for values nested in it if it may have any. Of members with the same
key the last one counts, in the place of the first. -/
def valueOver (nested : Option (Reader Json)) : Reader Json := do
  match ← peekToken? with
  | none => fail .truncated
  | some c =>
    if c = 'n' then
      skip 1
      word ['u', 'l', 'l']
      return .null
    else if c = 't' then
      skip 1
      word ['r', 'u', 'e']
      return .bool true
    else if c = 'f' then
      skip 1
      word ['a', 'l', 's', 'e']
      return .bool false
    else if c = '-' || c.isDigit then return .number (← number)
    else if c = '"' then
      skip 1
      return .string (← stringRest)
    else match nested with
      | none => fail .malformed
      | some nested =>
        if c = '[' then
          skip 1
          return .array (← itemsRest nested)
        else if c = '\x7b' then
          skip 1
          return .object (← membersRest (fun key members => do
            colon
            return setKey key (← nested) members) [])
        else fail .malformed

/-- A value with at most so many levels of nesting. -/
def value : (levels : Nat) → Reader Json
  | 0 => valueOver none
  | levels + 1 => valueOver (some (value levels))

/-- Runs a reader on a whole text, with nothing but blanks around. -/
def run {α : Type} (reader : Reader α) (text : String) : Except Fault α :=
  match StateT.run (do let a ← reader; skipBlanks; return a) text.toList with
  | .error fault => .error fault
  | .ok (a, rest) => if rest.isEmpty then .ok a else .error .malformed

end Reader

/-- Reads a JSON text with at most 127 levels of nesting. -/
def parse (text : String) : Except Fault Json := (Reader.value 127).run text

end TreeRender.Json
