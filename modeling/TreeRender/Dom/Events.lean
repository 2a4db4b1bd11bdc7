import TreeRender.Dom.Document

/-!
# Dispatching events

An event is dispatched to the listeners that a node has at that moment. While they are called,
handlers may change the document and dispatch further events, so a handler's call is a `Reaction`:
each takes finitely many turns.
-/

namespace TreeRender.Dom

variable {F σ α : Type}

/-- The rest of a handler's call. A change gives a number to go on with, and so does a dispatched
event: how many handlers were called. -/
inductive Reaction (F σ : Type) where
  | done (state : σ)
  | change (f : Document F → Logged (Nat × Document F)) (resume : Nat → Reaction F σ)
  | dispatch (target : NodeId) (event : Event) (state : σ) (resume : Nat → σ → Reaction F σ)

abbrev Reactions (F σ : Type) := (handler : F) → Event → σ → Reaction F σ

/-- The document with the state of the user functions. -/
structure Page (F σ : Type) where
  document : Document F
  state : σ

/-- The handlers that an event at a node calls, in the order in which they were bound. -/
def Document.handlersFor (d : Document F) (target : NodeId) (event : Event) : List F :=
  ((d.listeners target).filter (·.event = event.kind)).map (·.handler)

/-- Runs a reaction, given how to dispatch events. Nothing comes out if that gives up. -/
def runReaction (dispatch : NodeId → Event → Page F σ → Option (Logged (Nat × Page F σ))) :
    Reaction F σ → Document F → Option (Logged (Page F σ))
  | .done state, document => some (return { document, state })
  | .change f resume, document =>
    let changed := f document
    (runReaction dispatch (resume changed.value.1) changed.value.2).map fun rest =>
      changed >>= fun _ => rest
  | .dispatch target event state resume, document =>
    match dispatch target event { document, state } with
    | none => none
    | some dispatched =>
      let (count, page) := dispatched.value
      (runReaction dispatch (resume count page.state) page.document).map fun rest =>
        dispatched >>= fun _ => rest

def callHandlers (reactions : Reactions F σ)
    (dispatch : NodeId → Event → Page F σ → Option (Logged (Nat × Page F σ))) (event : Event) :
    List F → Page F σ → Option (Logged (Page F σ))
  | [], page => some (pure page)
  | handler :: rest, page =>
    match runReaction dispatch (reactions handler event page.state) page.document with
    | none => none
    | some called =>
      (callHandlers reactions dispatch event rest called.value).map fun others =>
        called >>= fun _ => others

/-- Dispatches an event to a node, with at most `nesting` dispatches inside of each other. The
number of handlers called comes out, unless the nesting does not suffice. -/
def dispatch (reactions : Reactions F σ) :
    (nesting : Nat) → NodeId → Event → Page F σ → Option (Logged (Nat × Page F σ))
  | 0, _, _, _ => none
  | nesting + 1, target, event, page =>
    let handlers := page.document.handlersFor target event
    (callHandlers reactions (dispatch reactions nesting) event handlers page).map fun called =>
      return (handlers.length, ← called)

end TreeRender.Dom
