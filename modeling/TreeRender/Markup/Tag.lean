import TreeRender.Action
import TreeRender.Attribute
import TreeRender.Log
import TreeRender.Markup.Text
import TreeRender.Text.Quoted

/-!
# Tags

Opening and closing tags as text. An attribute whose name is not valid is left out and reported.
With hydration, a listener is published as an action and leaves its id in the tag.
-/

namespace TreeRender.Markup

variable {F N : Type}

def attributeText : Attribute F → String
  | .value name text =>
    if isValidName name then " " ++ name ++ "=\"" ++ escape text ++ "\"" else ""
  | .present name => if isValidName name then " " ++ name else ""
  | .listener .. => ""

/-- Reports an attribute that `attributeText` leaves out. -/
def reportAttribute : Attribute F → Logged Unit
  | .value name _ | .present name =>
    if isValidName name then pure ()
    else warn ("Skipping attribute with invalid name " ++ Text.quote name ++ ".")
  | .listener .. => pure ()

def reportAttributes : List (Attribute F) → Logged Unit
  | [] => pure ()
  | a :: rest => do reportAttribute a; reportAttributes rest

/-- The attributes of an element as text, a space before each. -/
def formatAttributes (e : Element F N) : Logged String := do
  reportAttributes e.mapped
  return String.join (e.mapped.map attributeText)

def tagAttribute (hydrate : Bool) (a : Attribute F) (actions : Registry F) :
    String × Registry F :=
  match a with
  | .listener event handler =>
    if hydrate && isValidName event then
      let (id, actions) := actions.publish event handler
      (" data-action-" ++ event ++ "=\"" ++ ActionId.text id ++ "\"", actions)
    else ("", actions)
  | a => (attributeText a, actions)

def tagAttributes (hydrate : Bool) :
    List (Attribute F) → Registry F → String × Registry F
  | [], actions => ("", actions)
  | a :: rest, actions =>
    let (text, actions) := tagAttribute hydrate a actions
    let (more, actions) := tagAttributes hydrate rest actions
    (text ++ more, actions)

def openTag (hydrate : Bool) (e : Element F N) : StateT (Registry F) Logged String := do
  reportAttributes e.mapped
  let (text, actions) := tagAttributes hydrate e.mapped (← get)
  set actions
  return "<" ++ e.tag ++ text ++ ">"

def closeTag (tag : String) : String := "</" ++ tag ++ ">"

end TreeRender.Markup
