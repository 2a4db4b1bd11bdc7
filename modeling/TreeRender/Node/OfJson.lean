import TreeRender.Json.Value
import TreeRender.Log
import TreeRender.Text.Quoted

/-!
# Trees from JSON

Plain nested data as a tree: null is empty, scalars are text, arrays are collections, and an object
is an element under its tag, whose value holds the props. What has no meaning as part of a tree is
reported and left out.
-/

namespace TreeRender

namespace Node

variable {F : Type}

def styleEntry? (property : String) (value : Json) : Logged (Option (String × String)) :=
  match value with
  | .string s => pure (some (property, s))
  | .number n => pure (some (property, Decimal.text n.toFloat))
  | .null => pure none
  | _ => do
    warn ("Ignoring unsupported value of style property " ++ Text.quote property ++ ".")
    return none

def styleOfJson : List (String × Json) → Logged (List (String × String))
  | [] => pure []
  | (property, value) :: rest => do
    let entry ← styleEntry? property value
    let rest ← styleOfJson rest
    return entry.toList ++ rest

/-- The text directive that a value stands for. -/
def directiveOfJson (value : Json) : Logged (Option String) :=
  match value with
  | .null => pure none
  | .string s => pure (some s)
  | .number n => pure (some (Decimal.text n.toFloat))
  | .bool b => pure (some (boolText b))
  | .array _ | .object _ => do
    warn "Ignoring non-scalar \x60text\x60 value."
    return none

def styleProp (value : Json) : Logged (Option (AttrValue F)) :=
  match value with
  | .object declarations => return some (.style (← styleOfJson declarations))
  | .string s => pure (some (.str s))
  | .null => pure (some .null)
  | _ => do
    warn "Ignoring \x60style\x60 value that is neither an object nor a string."
    return none

def scalarProp (key : String) (value : Json) : Logged (Option (AttrValue F)) :=
  match value with
  | .null => pure (some .null)
  | .bool b => pure (some (.bool b))
  | .number n => pure (some (.number n.toFloat))
  | .string s => pure (some (.str s))
  | .array _ | .object _ => do
    warn ("Ignoring non-scalar value of attribute " ++ Text.quote key ++ ".")
    return none

/-- Adds the prop `key` to an element. Children are given as a tree already. -/
def addProp (e : Element F (Node F)) (key : String) (value : Json)
    (children : Logged (Node F)) : Logged (Element F (Node F)) :=
  if key = "children" then return e.withChild (← children)
  else if key = "text" then
    return match ← directiveOfJson value with
      | none => e
      | some directive => e.withText directive
  else
    return match ← if key = "style" then styleProp value else scalarProp key value with
      | none => e
      | some prop => e.attr key prop

def reportExtra (tag : String) (extra : List (String × Json)) : Logged Unit :=
  match extra with
  | [] => pure ()
  | extra => warn ("Ignoring extra keys " ++ Text.quoteAll (extra.map (·.1)) ++
      " after element tag " ++ Text.quote tag ++ ".")

def reportProps (tag : String) (props : Json) : Logged Unit :=
  error ("Invalid node shape: props of <" ++ tag ++ "> must be an object, found " ++ props.text ++
    ". Rendering nothing instead.")

mutual

def ofJson : Json → Logged (Node F)
  | .null => pure .empty
  | .bool b => pure (.text (.bool b))
  | .number n => pure (.text (.number n.toFloat))
  | .string s => pure (.text (.str s))
  | .array items => return .collection (← ofItems items)
  | .object [] => do
    error "Invalid node shape: empty object. Rendering nothing instead."
    return .empty
  | .object ((tag, .null) :: extra) => do
    reportExtra tag extra
    return .element (Element.new tag)
  | .object ((tag, .object props) :: extra) => do
    reportExtra tag extra
    return .element (← ofProps props (Element.new tag))
  | .object ((tag, other) :: extra) => do
    reportExtra tag extra
    reportProps tag other
    return .empty

def ofItems : List Json → Logged (List (Node F))
  | [] => pure []
  | item :: rest => return (← ofJson item) :: (← ofItems rest)

def ofProps : List (String × Json) → Element F (Node F) → Logged (Element F (Node F))
  | [], e => pure e
  | (key, value) :: rest, e => do
    let e ← addProp e key value (ofJson value)
    ofProps rest e

end

end Node

end TreeRender
