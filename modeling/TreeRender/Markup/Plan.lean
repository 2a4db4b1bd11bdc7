import TreeRender.Markup.Renderer

/-!
# Plans

What a stream of markup still has to do, as a sequence of steps. A step writes one whole piece of
markup: an opening tag with its text directive, a closing tag, a text, or a cacheable subtree. Or it
calls a component, and the plan goes on with what comes of it, so no function is called before its
step is taken.
-/

namespace TreeRender.Markup

variable {F σ : Type}

inductive Plan (F σ : Type) where
  | done
  /-- Writes a piece, which counts as an opened element if `opens` holds. -/
  | write (opens : Bool) (piece : Walk σ (Registry F) String) (rest : Plan F σ)
  /-- Calls a component. If it fails, the fallback is written before the rest. -/
  | call (component : Calls σ (Except RenderError (Node F))) (resume : Node F → Plan F σ)
      (rest : Plan F σ)

section

variable (program : Program F σ) (config : Config)

/-- The unit of a node in the walk of a single render, by which a cacheable subtree is written. -/
def pieceOf (levels depth : Nat) (node : Node F) : Walk σ (Registry F) String :=
  walkFrom program config (backend config.enableHydration) levels depth node

/-- The opening tag of an element, and its text directive if it can have content. -/
def opening (e : Element F (Node F)) : Walk σ (Registry F) String := do
  Walk.count Scene.countElement
  let tag ← Walk.onBackend (openTag config.enableHydration e)
  if isVoid e.tag then
    reportContent e
    return tag
  else
    let directive ← walkDirective program config (backend config.enableHydration) e.text
    return tag ++ String.join directive

def planEach (below : Node F → Plan F σ → Plan F σ) : List (Node F) → Plan F σ → Plan F σ
  | [], rest => rest
  | n :: nodes, rest => below n (planEach below nodes rest)

def planElement (below : Node F → Plan F σ → Plan F σ) (levels depth : Nat)
    (e : Element F (Node F)) (rest : Plan F σ) : Plan F σ :=
  if config.isCacheable e then .write true (pieceOf program config levels depth (.element e)) rest
  else if !isValidName e.tag then .write false (do reportTag e.tag; return "") rest
  else if isVoid e.tag then .write true (opening program config e) rest
  else .write true (opening program config e) <|
    planEach below e.childNodes (.write false (return closeTag e.tag) rest)

mutual

/-- Plans the nodes of one level, with `levels` allowed below it. -/
def planLevel (below : Node F → Plan F σ → Plan F σ) (levels depth : Nat) :
    Node F → Plan F σ → Plan F σ
  | .empty, rest => rest
  | .text value, rest => .write false (return escape value.text) rest
  | .component c, rest =>
    .call (invoke program config (resolveFrom program config levels (depth + 1)) depth c)
      (below · rest) rest
  | .collection nodes, rest => planMembers below levels depth nodes rest
  | .element e, rest => planElement program config below (levels + 1) depth e rest

def planMembers (below : Node F → Plan F σ → Plan F σ) (levels depth : Nat) :
    List (Node F) → Plan F σ → Plan F σ
  | [], rest => rest
  | n :: nodes, rest =>
    planLevel below levels depth n (planMembers below levels depth nodes rest)

end

/-- The plan of a node at `depth`, before the plan of what comes after it. -/
def planFrom : (levels depth : Nat) → Node F → Plan F σ → Plan F σ
  | 0, depth, _, _ =>
    .write false (do reportDepth; throw (config.depthError depth)) .done
  | levels + 1, depth, node, rest =>
    planLevel program config (planFrom levels (depth + 1)) levels depth node rest

def plan (node : Node F) : Plan F σ :=
  planFrom program config (config.levelsAt 1) 1 node .done

end

end TreeRender.Markup
