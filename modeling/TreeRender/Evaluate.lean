import TreeRender.Node.Build
import TreeRender.Program
import TreeRender.Scene

/-!
# Evaluating functions

Components are called with failures and panics contained. A provider may have nodes resolved, which
replaces the components in them by what they come to. Every level that a component, an element or a
provider adds is one of `levels` still allowed below the depth limit, so resolving ends whatever the
functions return.
-/

namespace TreeRender

variable {F σ : Type}

def reportDepth : Logged Unit := error "Depth limit reached"

def Config.depthError (config : Config) (depth : Nat) : RenderError :=
  .depthExceeded depth config.maxDepth

/-- The number of levels from `depth` on, itself included, that the depth limit allows. -/
def Config.levelsAt (config : Config) (depth : Nat) : Nat := config.maxDepth + 1 - depth

def Config.guardDepth (config : Config) (depth : Nat) : Logged (Except RenderError Unit) :=
  if config.maxDepth < depth then do
    reportDepth
    return .error (config.depthError depth)
  else return .ok ()

section

variable (program : Program F σ) (config : Config)

/-- Runs a provider, given how to resolve nodes. -/
def runScript (resolve : Node F → Calls σ (Node F)) :
    Script F σ → Calls σ (Except Failure (Node F))
  | .finish outcome => do
    let (outcome, state) ← outcome
    modify ({ · with state })
    return outcome
  | .resolve request resume => do
    let (node, state) ← request
    modify ({ · with state })
    let resolved ← resolve node
    runScript resolve (resume resolved (← get).state)

def callComponent (resolve : Node F → Calls σ (Node F)) (depth : Nat) :
    Component F → Calls σ (Except Failure (Node F))
  | .producer name => do
    let (outcome, state) ← program.produce name (← get).state
    modify ({ · with state })
    return outcome
  | .provider name => do runScript resolve (program.provide name depth config (← get).state)

/-- Calls a component once. An error that came up while it had nodes resolved takes precedence over
whatever it returns, and was counted there. -/
def invoke (resolve : Node F → Calls σ (Node F)) (depth : Nat) (c : Component F) :
    Calls σ (Except RenderError (Node F)) := do
  modify (·.enterCall depth)
  let outcome ← callComponent program config resolve depth c
  match (← get).pending with
  | some e =>
    modify ({ · with pending := none })
    return .error e
  | none =>
    match outcome with
    | .ok node => return .ok node
    | .error failure =>
      modify Scene.countError
      return .error (.failed failure.toError)

/-- The text of a directive. Only a panic of a computed text stands in its way. -/
def directiveText : Directive F → Calls σ (Except CallError String)
  | .literal text => return .ok text
  | .computed name => do
    let (outcome, state) ← program.compute name (← get).state
    modify ({ · with state })
    match outcome with
    | .ok text => return .ok text
    | .error payload =>
      modify Scene.countError
      return .error ⟨panicText payload⟩

/-- Resolves nothing any more once an error is pending. -/
def unlessPending (resolved : Calls σ (Node F)) : Calls σ (Node F) := do
  if (← get).pending.isSome then return .empty else resolved

/-- What stands for a component that failed while it was resolved. -/
def resolveFailed (e : RenderError) : Calls σ (Node F) := do
  match e with
  | .failed cause =>
    if config.throwOnError then modify (·.postpone e)
    else error ("Component failed while resolving scoped content: " ++ cause.message)
  | _ => modify (·.postpone e)
  return .empty

mutual

/-- Resolves the nodes of one level; `below` resolves those of the next. -/
def resolveLevel (below : Node F → Calls σ (Node F)) (depth : Nat) : Node F → Calls σ (Node F)
  | .empty => unlessPending (return .empty)
  | .text value => unlessPending (return .text value)
  | .component c => unlessPending do
    match ← invoke program config below depth c with
    | .ok node => below node
    | .error e => resolveFailed config e
  | .collection nodes => unlessPending do
    return .collection (← resolveMembers below depth nodes)
  | .element e => unlessPending do
    match e.children with
    | none => return .element e
    | some child => return .element (e.withChild (← below child))

def resolveMembers (below : Node F → Calls σ (Node F)) (depth : Nat) :
    List (Node F) → Calls σ (List (Node F))
  | [] => return []
  | n :: rest => return (← resolveLevel below depth n) :: (← resolveMembers below depth rest)

end

/-- Resolves a node at `depth`, where the depth limit allows `levels` more levels. -/
def resolveFrom : (levels depth : Nat) → Node F → Calls σ (Node F)
  | 0, depth, _ => unlessPending do
    reportDepth
    modify (·.postpone (config.depthError depth))
    return .empty
  | levels + 1, depth, node =>
    resolveLevel program config (resolveFrom levels (depth + 1)) depth node

/-- What a provider at `depth` gets for a node that it has resolved: the same tree without
components. Failed components come to nothing. -/
def resolve (depth : Nat) (node : Node F) : Calls σ (Node F) :=
  resolveFrom program config (config.levelsAt (depth + 1)) (depth + 1) node

/-- Calls a component and any component that comes out of it, given the number of levels allowed
below `depth`. -/
def evaluateFrom : (levels depth : Nat) → Component F →
    Calls σ (Except RenderError (Node F × Nat))
  | 0, depth, c => do
    match ← invoke program config (resolveFrom program config 0 (depth + 1)) depth c with
    | .ok (.component _) =>
      reportDepth
      return .error (config.depthError (depth + 1))
    | .ok node => return .ok (node, depth)
    | .error e => return .error e
  | levels + 1, depth, c => do
    match ← invoke program config (resolveFrom program config (levels + 1) (depth + 1)) depth c with
    | .ok (.component next) => evaluateFrom levels (depth + 1) next
    | .ok node => return .ok (node, depth)
    | .error e => return .error e

/-- The node that is no component which a component comes to in the end, with the depth of the last
component called. -/
def evaluate (depth : Nat) (c : Component F) : Calls σ (Except RenderError (Node F × Nat)) :=
  evaluateFrom program config (config.levelsAt (depth + 1)) depth c

end

end TreeRender
