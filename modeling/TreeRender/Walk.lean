import TreeRender.Cache
import TreeRender.Evaluate
import TreeRender.Log
import TreeRender.Node.Basic
import TreeRender.Node.Shape
import TreeRender.Signature
import TreeRender.Text.Quoted

/-!
# The walk

All output comes from one walk over the tree, which calls components, consults the cache and has a
backend make units. A component, and the content of an element, lie one level below, and the walk
ends with an error at the first node past the depth limit.
-/

namespace TreeRender

/-- What makes units of output, of type `U`, as the walk of a tree tells it. It may keep a state `β`
of its own. Where fragments can be cached, it also reads and writes them. -/
structure Backend (F β U : Type) where
  /-- Whether units can be stored in the fragment cache and restored from it. -/
  cachesFragments : Bool := false
  empty : StateT β Logged U
  text : String → StateT β Logged U
  fragment : List U → StateT β Logged U
  /-- Called before the content of an element is rendered. -/
  enter : Element F (Node F) → StateT β Logged Unit := fun _ => pure ()
  /-- Makes an element of its content: the text directive, if any, then the children. The content
  of a void element is empty. -/
  element : Element F (Node F) → List U → StateT β Logged U
  /-- Stands in for a subtree that failed. -/
  fallback : String → StateT β Logged U
  fromCache : String → StateT β Logged (Option U) := fun _ => pure none
  toCache : U → StateT β Logged (Option String) := fun _ => pure none

variable {F σ β U : Type}

/-- What a walk works on: the scene, the time, the cache and the state of the backend. -/
structure WalkState (σ β : Type) extends Scene σ where
  clock : Clock
  cache : FragmentCache
  backend : β

/-- Part of a walk. An error ends the walk, and what was done until then stays done. -/
abbrev Walk (σ β α : Type) := ExceptT RenderError (StateT (WalkState σ β) Logged) α

namespace Walk

def onScene {α : Type} (x : Calls σ α) : Walk σ β α := ExceptT.mk fun s => do
  let (a, scene) ← x s.toScene
  return (.ok a, { s with toScene := scene })

def onBackend {α : Type} (x : StateT β Logged α) : Walk σ β α := ExceptT.mk fun s => do
  let (a, backend) ← x s.backend
  return (.ok a, { s with backend })

def count (f : Scene σ → Scene σ) : Walk σ β Unit :=
  modify fun s => { s with toScene := f s.toScene }

def now : Walk σ β Nat := modifyGet fun s => (s.clock.now, { s with clock := s.clock.tick })

variable {α γ : Type}

/-- What comes of a part of a walk, its log apart. -/
def exec (x : Walk σ β α) (s : WalkState σ β) : Except RenderError α × WalkState σ β :=
  (x.run.run s).value

@[simp] theorem exec_pure (a : α) (s : WalkState σ β) :
    (pure a : Walk σ β α).exec s = (.ok a, s) := rfl

@[simp] theorem exec_throw (e : RenderError) (s : WalkState σ β) :
    (throw e : Walk σ β α).exec s = (.error e, s) := rfl

theorem exec_bind (x : Walk σ β α) (f : α → Walk σ β γ) (s : WalkState σ β) :
    (x >>= f).exec s = match x.exec s with
      | (.ok a, s) => (f a).exec s
      | (.error e, s) => (.error e, s) := by
  change (ExceptT.bindCont f (x.run.run s).value.1 (x.run.run s).value.2).value = _
  unfold exec
  rcases (x.run.run s).value with ⟨a | a, s⟩ <;> rfl

theorem exec_bind_ok {x : Walk σ β α} {s t : WalkState σ β} {a : α} (f : α → Walk σ β γ)
    (h : x.exec s = (.ok a, t)) : (x >>= f).exec s = (f a).exec t := by
  rw [exec_bind, h]

theorem exec_bind_error {x : Walk σ β α} {s t : WalkState σ β} {e : RenderError}
    (f : α → Walk σ β γ) (h : x.exec s = (.error e, t)) : (x >>= f).exec s = (.error e, t) := by
  rw [exec_bind, h]

@[simp] theorem exec_get (s : WalkState σ β) :
    (get : Walk σ β (WalkState σ β)).exec s = (.ok s, s) := rfl

@[simp] theorem exec_modify (f : WalkState σ β → WalkState σ β) (s : WalkState σ β) :
    (modify f : Walk σ β Unit).exec s = (.ok (), f s) := rfl

@[simp] theorem exec_logged (x : Logged α) (s : WalkState σ β) :
    (liftM x : Walk σ β α).exec s = (.ok x.value, s) := rfl

@[simp] theorem exec_onScene (x : Calls σ α) (s : WalkState σ β) :
    (onScene x : Walk σ β α).exec s =
      (.ok (x.exec s.toScene).1, { s with toScene := (x.exec s.toScene).2 }) := rfl

@[simp] theorem exec_onBackend (x : StateT β Logged α) (s : WalkState σ β) :
    (onBackend x : Walk σ β α).exec s =
      (.ok (x s.backend).value.1, { s with backend := (x s.backend).value.2 }) := rfl

@[simp] theorem exec_count (f : Scene σ → Scene σ) (s : WalkState σ β) :
    (count f : Walk σ β Unit).exec s = (.ok (), { s with toScene := f s.toScene }) := rfl

@[simp] theorem exec_now (s : WalkState σ β) :
    (now : Walk σ β Nat).exec s = (.ok s.clock.now, { s with clock := s.clock.tick }) := rfl

end Walk

/-- Caching is on, the element is not too complex, and no function occurs in it. -/
def Config.isCacheable (config : Config) (e : Element F (Node F)) : Bool :=
  config.enableCache && 0 < config.cacheSize &&
    e.complexity config.cacheComplexityLimit ≤ config.cacheComplexityLimit &&
    !e.containsFunction

section

variable (program : Program F σ) (config : Config) (backend : Backend F β U)

/-- Deals with a failed function: the failure ends the walk, or the fallback takes its place. -/
def recover (cause : CallError) : Walk σ β U :=
  if config.throwOnError then throw (.failed cause)
  else do
    error ("Component failed, substituting the fallback: " ++ cause.message)
    Walk.onBackend (backend.fallback config.errorFallback)

/-- Looks for the fragment of an element. One that was made higher up in a tree may not fit here;
walking the element anew reports that. -/
def cachedUnit (depth : Nat) (e : Element F (Node F)) : Walk σ β (Option U) := do
  if depth + e.height - 1 ≤ config.maxDepth then
    let (fragment, cache) := (← get).cache.get e.signature (← Walk.now)
    modify ({ · with cache })
    match fragment with
    | none => return none
    | some fragment => Walk.onBackend (backend.fromCache fragment)
  else return none

def storeUnit (e : Element F (Node F)) (unit : U) : Walk σ β Unit := do
  match ← Walk.onBackend (backend.toCache unit) with
  | none => return ()
  | some fragment =>
    let now ← Walk.now
    modify fun s => { s with cache := s.cache.insert e.signature fragment now }

def walkDirective : Option (Directive F) → Walk σ β (List U)
  | none => return []
  | some directive => do
    match ← Walk.onScene (directiveText program directive) with
    | .ok text => return [← Walk.onBackend (backend.text text)]
    | .error cause => return [← recover config backend cause]

def walkEach (below : Node F → Walk σ β U) : List (Node F) → Walk σ β (List U)
  | [] => return []
  | n :: rest => return (← below n) :: (← walkEach below rest)

def reportContent (e : Element F (Node F)) : Logged Unit :=
  if e.hasContent then warn ("Ignoring content of void element <" ++ e.tag ++ ">.") else pure ()

def buildElement (below : Node F → Walk σ β U) (e : Element F (Node F)) : Walk σ β U := do
  Walk.onBackend (backend.enter e)
  if Markup.isVoid e.tag then
    reportContent e
    Walk.onBackend (backend.element e [])
  else
    let directive ← walkDirective program config backend e.text
    let children ← walkEach below e.childNodes
    Walk.onBackend (backend.element e (directive ++ children))

def reportTag (tag : String) : Logged Unit :=
  error ("Invalid tag name " ++ Text.quote tag ++ ". Rendering nothing instead.")

def walkElement (below : Node F → Walk σ β U) (depth : Nat) (e : Element F (Node F)) :
    Walk σ β U := do
  if !Markup.isValidName e.tag then
    reportTag e.tag
    Walk.onBackend backend.empty
  else
    Walk.count Scene.countElement
    if backend.cachesFragments && config.isCacheable e then
      match ← cachedUnit config backend depth e with
      | some unit =>
        Walk.count Scene.countHit
        return unit
      | none =>
        Walk.count Scene.countMiss
        let unit ← buildElement program config backend below e
        storeUnit backend e unit
        return unit
    else buildElement program config backend below e

mutual

/-- Walks the nodes of one level, given how to resolve and to walk those of the next. -/
def walkLevel (resolve : Node F → Calls σ (Node F)) (below : Node F → Walk σ β U) (depth : Nat) :
    Node F → Walk σ β U
  | .empty => Walk.onBackend backend.empty
  | .text value => Walk.onBackend (backend.text value.text)
  | .component c => do
    match ← Walk.onScene (invoke program config resolve depth c) with
    | .ok node => below node
    | .error (.failed cause) => recover config backend cause
    | .error e => throw e
  | .collection nodes => do
    Walk.onBackend (backend.fragment (← walkMembers resolve below depth nodes))
  | .element e => walkElement program config backend below depth e

def walkMembers (resolve : Node F → Calls σ (Node F)) (below : Node F → Walk σ β U)
    (depth : Nat) : List (Node F) → Walk σ β (List U)
  | [] => return []
  | n :: rest =>
    return (← walkLevel resolve below depth n) :: (← walkMembers resolve below depth rest)

end

/-- Walks a node at `depth`, where the depth limit allows `levels` more levels. -/
def walkFrom : (levels depth : Nat) → Node F → Walk σ β U
  | 0, depth, _ => do
    reportDepth
    throw (config.depthError depth)
  | levels + 1, depth, node =>
    walkLevel program config backend (resolveFrom program config levels (depth + 1))
      (walkFrom levels (depth + 1)) depth node

def walk (depth : Nat) (node : Node F) : Walk σ β U :=
  walkFrom program config backend (config.levelsAt depth) depth node

end

end TreeRender
