import TreeRender.Markup.Text
import TreeRender.Node.Build

/-!
# The shape of a tree

Queries on trees that look at no function: whether there is content, whether any function occurs,
how many depth levels an element takes, and how complex it is.
-/

namespace TreeRender

variable {F N : Type}

inductive NodeKind where
  | empty
  | text
  | component
  | collection
  | element
  deriving DecidableEq

def Node.kind : Node F → NodeKind
  | .empty => .empty
  | .text _ => .text
  | .component _ => .component
  | .collection _ => .collection
  | .element _ => .element

mutual

def Node.isEmpty : Node F → Bool
  | .empty => true
  | .collection nodes => Node.allEmpty nodes
  | _ => false

def Node.allEmpty : List (Node F) → Bool
  | [] => true
  | n :: rest => n.isEmpty && Node.allEmpty rest

end

def Directive.isComputed : Directive F → Bool
  | .literal _ => false
  | .computed _ => true

def AttrValue.isHandler : AttrValue F → Bool
  | .handler _ => true
  | _ => false

namespace Element

/-- Whether there is anything to put between the tags. -/
def hasContent (e : Element F (Node F)) : Bool :=
  e.text.isSome || match e.children with
    | none => false
    | some children => !children.isEmpty

/-- The children as a sequence, whether there are none, one or a collection. -/
def childNodes (e : Element F (Node F)) : List (Node F) :=
  match e.children with
  | none => []
  | some (.collection nodes) => nodes
  | some node => [node]

/-- Whether the text directive or an attribute is a function. -/
def ownFunction (e : Element F N) : Bool :=
  e.text.any Directive.isComputed || e.attributes.any fun (_, value) => value.isHandler

/-- Whether the walk goes into the content: void elements and elements that cannot be written are
not entered. -/
def isEntered (e : Element F N) : Bool := Markup.isValidName e.tag && !Markup.isVoid e.tag

end Element

mutual

def Node.containsFunction : Node F → Bool
  | .empty => false
  | .text _ => false
  | .component _ => true
  | .collection nodes => Node.anyContainsFunction nodes
  | .element ⟨tag, attributes, directive, none, h⟩ =>
    Element.ownFunction (⟨tag, attributes, directive, none, h⟩ : Element F (Node F))
  | .element ⟨tag, attributes, directive, some child, h⟩ =>
    Element.ownFunction (⟨tag, attributes, directive, none, h⟩ : Element F (Node F)) ||
      child.containsFunction

def Node.anyContainsFunction : List (Node F) → Bool
  | [] => false
  | n :: rest => n.containsFunction || Node.anyContainsFunction rest

end

mutual

/-- How many depth levels a node takes: the members of a collection share its level, and the
children of an element are one level below it unless they are never walked. -/
def Node.height : Node F → Nat
  | .empty => 1
  | .text _ => 1
  | .component _ => 1
  | .collection nodes => max 1 (Node.maxHeight nodes)
  | .element ⟨_, _, _, none, _⟩ => 1
  | .element ⟨tag, _, _, some (.collection nodes), _⟩ =>
    if Markup.isValidName tag && !Markup.isVoid tag then 1 + Node.maxHeight nodes else 1
  | .element ⟨tag, _, _, some child, _⟩ =>
    if Markup.isValidName tag && !Markup.isVoid tag then 1 + child.height else 1

def Node.maxHeight : List (Node F) → Nat
  | [] => 0
  | n :: rest => max n.height (Node.maxHeight rest)

end

mutual

/-- Adds the complexity of a node to `total`, unless that is past `limit` already: one for a text
or a collection, the own keys of an element, and what lies below. -/
def Node.addComplexity : Node F → (total limit : Nat) → Nat
  | .empty, total, _ => total
  | .component _, total, _ => total
  | .text _, total, limit => if limit < total then total else total + 1
  | .collection nodes, total, limit =>
    if limit < total then total else Node.addComplexities nodes (total + 1) limit
  | .element ⟨tag, attributes, directive, none, h⟩, total, limit =>
    if limit < total then total
    else total + Element.size (⟨tag, attributes, directive, none, h⟩ : Element F (Node F))
  | .element ⟨tag, attributes, directive, some child, h⟩, total, limit =>
    if limit < total then total
    else
      let own := Element.size (⟨tag, attributes, directive, some child, h⟩ : Element F (Node F))
      total + child.addComplexity own (limit - total)

def Node.addComplexities : List (Node F) → (total limit : Nat) → Nat
  | [], total, _ => total
  | n :: rest, total, limit => Node.addComplexities rest (n.addComplexity total limit) limit

end

namespace Element

def containsFunction (e : Element F (Node F)) : Bool := (Node.element e).containsFunction

def height (e : Element F (Node F)) : Nat := (Node.element e).height

/-- The complexity of an element. Counting stops early past `limit`. -/
def complexity (e : Element F (Node F)) (limit : Nat) : Nat :=
  match e.children with
  | none => e.size
  | some child => child.addComplexity e.size limit

end Element

end TreeRender
