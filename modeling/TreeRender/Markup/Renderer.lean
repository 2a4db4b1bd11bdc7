import TreeRender.Engine
import TreeRender.Markup.Minify
import TreeRender.Markup.Tag

/-!
# Rendering to markup

The markup backend, whose units are texts, and a renderer that keeps its cache and its published
actions from one render to the next.
-/

namespace TreeRender

variable {F σ : Type}

namespace Markup

/-- An element around its content, which void elements have no room for. -/
def elementText (hydrate : Bool) (e : Element F (Node F)) (content : List String) :
    StateT (Registry F) Logged String := do
  let opening ← openTag hydrate e
  if isVoid e.tag then return opening
  else return opening ++ String.join content ++ closeTag e.tag

/-- The markup backend. Its state is the registry in which hydration publishes handlers. -/
def backend (hydrate : Bool) : Backend F (Registry F) String where
  cachesFragments := true
  empty := return ""
  text text := return escape text
  fragment units := return String.join units
  element e content := elementText hydrate e content
  fallback text := return text
  fromCache fragment := return some fragment
  toCache unit := return some unit

end Markup

structure MarkupRenderer (F : Type) where
  engine : Engine
  actions : Registry F := {}

namespace MarkupRenderer

def new (config : Config) : Logged (Except ConfigError (MarkupRenderer F)) := do
  match ← Engine.new config with
  | .error e => return .error e
  | .ok engine => return .ok { engine }

/-- A result with what a renderer and the world have become. -/
structure Output (F σ α : Type) where
  result : α
  renderer : MarkupRenderer F
  world : World σ

def render (r : MarkupRenderer F) (program : Program F σ) (node : Node F) (world : World σ) :
    Logged (Output F σ (Except RenderError String)) := do
  let config := r.engine.config
  let rendered ← r.engine.render program (Markup.backend config.enableHydration) node world
    r.actions
  return {
    result := rendered.result.map fun html => if config.minify then Markup.minify html else html
    renderer := { engine := r.engine.after rendered, actions := rendered.backend }
    world := rendered.world }

end MarkupRenderer

/-- The markup of a tree, with a renderer for this one use. -/
def renderToString (program : Program F σ) (config : Config) (node : Node F) (world : World σ) :
    Logged (Except RenderError String × World σ) := do
  match ← MarkupRenderer.new config with
  | .error e => return (.error (.config e), world)
  | .ok r =>
    let output ← r.render program node world
    return (output.result, output.world)

end TreeRender
