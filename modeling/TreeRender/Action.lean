import TreeRender.Node.Basic

/-!
# Actions

Handlers that markup refers to. Each published handler gets an id of its own, which the markup
carries as an attribute value; ids count up and are not given again, also after a drain.
-/

namespace TreeRender

variable {F : Type}

structure Action (F : Type) where
  event : String
  handler : F

structure Registry (F : Type) where
  nextId : Nat := 0
  actions : List (Nat × Action F) := []

namespace ActionId

def text (id : Nat) : String := String.ofList ('a' :: Nat.toDigits 10 id)

/-- The number that a nonempty run of decimal digits writes. -/
def digitsValue? (digits : List Char) : Option Nat :=
  if digits.isEmpty || !digits.all Char.isDigit then none
  else some (digits.foldl (fun n d => 10 * n + (d.toNat - '0'.toNat)) 0)

/-- Reads what `text` writes. A plus sign may stand before the digits, and ids take 64 bits. -/
def parse? (value : String) : Option Nat :=
  match value.toList with
  | 'a' :: '+' :: digits => (digitsValue? digits).filter (· < UInt64.size)
  | 'a' :: digits => (digitsValue? digits).filter (· < UInt64.size)
  | _ => none

end ActionId

namespace Registry

def publish (r : Registry F) (event : String) (handler : F) : Nat × Registry F :=
  (r.nextId, { nextId := r.nextId + 1, actions := r.actions ++ [(r.nextId, ⟨event, handler⟩)] })

def get? (r : Registry F) (id : Nat) : Option (Action F) := r.actions.lookup id

def size (r : Registry F) : Nat := r.actions.length

def drain (r : Registry F) : List (Nat × Action F) × Registry F :=
  (r.actions, { r with actions := [] })

end Registry

end TreeRender
