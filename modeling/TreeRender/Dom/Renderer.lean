import TreeRender.Attribute
import TreeRender.Engine

/-!
# Rendering to live nodes

The backend that has a host create live nodes, whose units are lists of nodes, and its renderer.
Rendering always makes new nodes; what a container held before stays, unless markup is taken over.
-/

namespace TreeRender

variable {F H N σ : Type}

namespace Dom

/-- What creates and assembles live nodes of type `N`. Its own state is of type `H`. -/
structure Host (F H N : Type) where
  /-- Nothing comes out if the host refuses to create the element. -/
  createElement : (tag : String) → (ns : Option String) → StateT H Logged (Option N)
  createText : String → StateT H Logged N
  setAttribute : N → (name value : String) → StateT H Logged Unit
  /-- Sets an attribute that is only present. -/
  setFlag : N → (name : String) → StateT H Logged Unit := fun node name => setAttribute node name ""
  addListener : N → (event : String) → (handler : F) → StateT H Logged Unit
  appendChild : (parent child : N) → StateT H Logged Unit
  clearChildren : N → StateT H Logged Unit

def svgNamespace : String := "http://www.w3.org/2000/svg"

def mathNamespace : String := "http://www.w3.org/1998/Math/MathML"

/-- A host, and the namespaces of the elements that are being built, innermost first. -/
structure HostState (H : Type) where
  host : H
  namespaces : List (Option String) := []

def onHost {α : Type} (x : StateT H Logged α) : StateT (HostState H) Logged α := fun s => do
  let (a, host) ← x s.host
  return (a, { s with host })

/-- The namespace of an element: that of its own tag, or else that of the element around it. -/
def namespaceOf (default : Option String) (tag : String) (namespaces : List (Option String)) :
    Option String :=
  if Text.sameIgnoringCase tag "svg" then some svgNamespace
  else if Text.sameIgnoringCase tag "math" then some mathNamespace
  else namespaces.head?.getD default

section

variable (host : Host F H N)

def applyAttribute (node : N) : Attribute F → StateT H Logged Unit
  | .value name text => host.setAttribute node name text
  | .present name => host.setFlag node name
  | .listener event handler => host.addListener node event handler

def applyAttributes (node : N) : List (Attribute F) → StateT H Logged Unit
  | [] => return ()
  | a :: rest => do
    applyAttribute host node a
    applyAttributes node rest

def appendAll (parent : N) : List N → StateT H Logged Unit
  | [] => return ()
  | child :: rest => do
    host.appendChild parent child
    appendAll parent rest

/-- Creates an element with its attributes and children, none if the host refuses. -/
def assemble (ns : Option String) (e : Element F (Node F)) (children : List N) :
    StateT H Logged (List N) := do
  match ← host.createElement e.tag ns with
  | none => return []
  | some node =>
    applyAttributes host node e.mapped
    appendAll host node children
    return [node]

def fallbackNodes (fallback : String) : StateT H Logged (List N) := do
  if fallback.isEmpty then return [] else return [← host.createText fallback]

/-- The backend of live nodes, with the namespace of elements outside of `svg` and `math`. -/
def backend (default : Option String) : Backend F (HostState H) (List N) where
  empty := return []
  text text := onHost do return [← host.createText text]
  fragment units := return units.flatten
  enter e := modify fun s =>
    { s with namespaces := namespaceOf default e.tag s.namespaces :: s.namespaces }
  element e content := do
    let ns := (← get).namespaces.head?.getD none
    modify fun s => { s with namespaces := s.namespaces.tail }
    onHost (assemble host ns e content.flatten)
  fallback fallback := onHost (fallbackNodes host fallback)

/-- Appends rendered nodes to a container, in place of its children if markup is taken over. -/
def mount (takeOver : Bool) (container : Option N) (nodes : List N) : StateT H Logged Unit := do
  match container with
  | none => return ()
  | some container =>
    if takeOver then host.clearChildren container
    appendAll host container nodes

end

end Dom

structure LiveRenderer (H : Type) where
  engine : Engine
  host : H

namespace LiveRenderer

def new (config : Config) (host : H) : Logged (Except ConfigError (LiveRenderer H)) := do
  match ← Engine.new config with
  | .error e => return .error e
  | .ok engine => return .ok { engine, host }

/-- A result with what a renderer and the world have become. -/
structure Output (H σ α : Type) where
  result : α
  renderer : LiveRenderer H
  world : World σ

/-- Makes the live nodes of a tree and appends them to the container, if there is one. After an
error the container is as it was. -/
def render (r : LiveRenderer H) (host : Dom.Host F H N) (program : Program F σ) (node : Node F)
    (container : Option N) (world : World σ) :
    Logged (Output H σ (Except RenderError (List N))) := do
  let config := r.engine.config
  let rendered ← r.engine.render program (Dom.backend host config.defaultNamespace) node world
    { host := r.host : Dom.HostState H }
  let engine := r.engine.after rendered
  match rendered.result with
  | .error e =>
    return { result := .error e, renderer := { engine, host := rendered.backend.host },
             world := rendered.world }
  | .ok nodes =>
    let ((), h) ← Dom.mount host config.enableHydration container nodes rendered.backend.host
    return { result := .ok nodes, renderer := { engine, host := h }, world := rendered.world }

end LiveRenderer

end TreeRender
