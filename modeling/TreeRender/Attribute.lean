import TreeRender.Markup.Text
import TreeRender.Node.Build

/-!
# Attributes

What the props of an element come to, whichever way the element is rendered: attributes with a
value, attributes that are only present, and listeners.
-/

namespace TreeRender

variable {F N : Type}

inductive Attribute (F : Type) where
  | value (name text : String)
  | present (name : String)
  | listener (event : String) (handler : F)

/-- The event that a key binds a handler to: what follows `on`, in lower case. -/
def eventType? (key : String) : Option String :=
  match key.toList with
  | 'o' :: 'n' :: first :: rest => some (Text.lower (String.ofList (first :: rest)))
  | _ => none

/-- Property names may be in camel case: a capital letter becomes a hyphen and its lower case. -/
def kebabChar (c : Char) : List Char := if c.isUpper then ['-', c.toLower] else [c]

def declarationText (declaration : String × String) : String :=
  String.ofList (declaration.1.toList.flatMap kebabChar) ++ ":" ++ declaration.2

def styleText (declarations : List (String × String)) : String :=
  ";".intercalate (declarations.map declarationText)

def attributeName (key : String) : String := if key = "className" then "class" else key

/-- Null and false leave the attribute out, true makes it present, and a handler becomes a listener
if its key names an event. -/
def Attribute.ofValue? (key : String) : AttrValue F → Option (Attribute F)
  | .null => none
  | .bool b => if b then some (.present (attributeName key)) else none
  | .str text => some (.value (attributeName key) text)
  | .number x => some (.value (attributeName key) (Decimal.text x))
  | .style declarations => some (.value (attributeName key) (styleText declarations))
  | .handler name => (eventType? key).map (.listener · name)

/-- The attributes of an element in declaration order. -/
def Element.mapped (e : Element F N) : List (Attribute F) :=
  e.attributes.filterMap fun (key, value) => Attribute.ofValue? key value

end TreeRender
