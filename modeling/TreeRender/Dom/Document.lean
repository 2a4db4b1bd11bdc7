import TreeRender.Dom.Renderer
import TreeRender.Markup.Text
import TreeRender.Node.Build
import TreeRender.Text.Quoted

/-!
# Documents

A document in memory. Live nodes are known by their place in the document, and an element knows its
children by theirs, so a node can be shared and changed in place.
-/

namespace TreeRender.Dom

variable {F : Type}

structure Listener (F : Type) where
  event : String
  handler : F

abbrev NodeId := Nat

structure LiveElement (F : Type) where
  tag : String
  ns : Option String := none
  /-- In the order in which they were set. One that is only present has no value. -/
  attributes : List (String × Option String) := []
  listeners : List (Listener F) := []
  children : List NodeId := []

inductive LiveNode (F : Type) where
  | text (content : String)
  | element (e : LiveElement F)

structure Document (F : Type) where
  nodes : Array (LiveNode F) := #[]
  /-- Number of nodes created by rendering or through the host, without detached elements. -/
  created : Nat := 0

namespace Document

def element? (d : Document F) (id : NodeId) : Option (LiveElement F) :=
  match d.nodes[id]? with
  | some (.element e) => some e
  | _ => none

def add (d : Document F) (node : LiveNode F) : NodeId × Document F :=
  (d.nodes.size, { d with nodes := d.nodes.push node })

/-- A detached element, which can serve as a container. -/
def detached (d : Document F) (tag : String) : NodeId × Document F := d.add (.element { tag })

def update (d : Document F) (id : NodeId) (e : LiveElement F) : Document F :=
  { d with nodes := d.nodes.setIfInBounds id (.element e) }

def createElement (tag : String) (ns : Option String) :
    StateT (Document F) Logged (Option NodeId) := do
  if Markup.isValidName tag then
    let (id, d) := (← get).add (.element { tag, ns })
    set { d with created := d.created + 1 }
    return some id
  else
    error ("Invalid tag name " ++ Text.quote tag ++ ".")
    return none

def createText (content : String) : StateT (Document F) Logged NodeId := do
  let (id, d) := (← get).add (.text content)
  set { d with created := d.created + 1 }
  return id

def storeAttribute (id : NodeId) (name : String) (value : Option String) :
    StateT (Document F) Logged Unit := do
  if Markup.isValidName name then
    match (← get).element? id with
    | some e => modify (·.update id { e with attributes := setKey name value e.attributes })
    | none => error ("Tried to set attribute " ++ Text.quote name ++ " on a text node.")
  else error ("Invalid attribute name " ++ Text.quote name ++ ". Skipping.")

def addListener (id : NodeId) (event : String) (handler : F) :
    StateT (Document F) Logged Unit := do
  match (← get).element? id with
  | some e => modify (·.update id { e with listeners := e.listeners ++ [⟨event, handler⟩] })
  | none => error ("Tried to add a " ++ Text.quote event ++ " listener to a text node.")

def appendChild (parent child : NodeId) : StateT (Document F) Logged Unit := do
  if parent = child then error "Tried to append a node to itself."
  else
    match (← get).element? parent with
    | some e => modify (·.update parent { e with children := e.children ++ [child] })
    | none => error "Tried to append a child to a text node."

def clearChildren (parent : NodeId) : StateT (Document F) Logged Unit := do
  match (← get).element? parent with
  | some e => modify (·.update parent { e with children := [] })
  | none => return ()

/-- Takes the listeners of one event away, or all of them, and counts them. -/
def removeListeners (id : NodeId) (event : Option String) (d : Document F) : Nat × Document F :=
  match d.element? id with
  | none => (0, d)
  | some e =>
    let kept := e.listeners.filter fun l => event.any (l.event ≠ ·)
    (e.listeners.length - kept.length, d.update id { e with listeners := kept })

def host : Host F (Document F) NodeId where
  createElement := createElement
  createText := createText
  setAttribute id name value := storeAttribute id name (some value)
  setFlag id name := storeAttribute id name none
  addListener := addListener
  appendChild := appendChild
  clearChildren := clearChildren

def isText (d : Document F) (id : NodeId) : Bool :=
  match d.nodes[id]? with
  | some (.text _) => true
  | _ => false

/-- Attributes that are only present read as empty texts. -/
def attributes (d : Document F) (id : NodeId) : List (String × String) :=
  match d.element? id with
  | none => []
  | some e => e.attributes.map fun (name, value) => (name, value.getD "")

def attribute? (d : Document F) (id : NodeId) (name : String) : Option String :=
  getKey? name (d.attributes id)

def children (d : Document F) (id : NodeId) : List NodeId :=
  ((d.element? id).map (·.children)).getD []

def listeners (d : Document F) (id : NodeId) : List (Listener F) :=
  ((d.element? id).map (·.listeners)).getD []

def describe (d : Document F) (id : NodeId) : String :=
  match d.nodes[id]? with
  | none => ""
  | some (.text content) => "LiveNode::Text(" ++ Text.quote content ++ ")"
  | some (.element e) =>
    "LiveNode::Element \x7b tag: " ++ Text.quote e.tag ++ ", children: " ++
      toString e.children.length ++ ", .. \x7d"

/-- The text of a node and of all below it, down to `levels` levels. -/
def textFrom (d : Document F) : (levels : Nat) → NodeId → String
  | 0, _ => ""
  | levels + 1, id =>
    match d.nodes[id]? with
    | none => ""
    | some (.text content) => content
    | some (.element e) => String.join (e.children.map (d.textFrom levels))

def attributeHtml : String × Option String → String
  | (name, none) => " " ++ name
  | (name, some value) => " " ++ name ++ "=\"" ++ Markup.escape value ++ "\""

/-- The markup of a node, down to `levels` levels. -/
def htmlFrom (d : Document F) : (levels : Nat) → NodeId → String
  | 0, _ => ""
  | levels + 1, id =>
    match d.nodes[id]? with
    | none => ""
    | some (.text content) => Markup.escape content
    | some (.element e) =>
      let opening := "<" ++ e.tag ++ String.join (e.attributes.map attributeHtml) ++ ">"
      if Markup.isVoid e.tag then opening
      else opening ++ String.join (e.children.map (d.htmlFrom levels)) ++ "</" ++ e.tag ++ ">"

/-- The text of a node and of all below it. No path without repetition is longer than the number of
nodes. -/
def textContent (d : Document F) (id : NodeId) : String := d.textFrom d.nodes.size id

/-- The markup of a node and of all below it. Listeners do not show. -/
def outerHtml (d : Document F) (id : NodeId) : String := d.htmlFrom d.nodes.size id

end Document

end TreeRender.Dom
