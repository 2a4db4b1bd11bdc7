import TreeRender.Config.Preset
import TreeRender.Walk

/-!
# The engine

Configuration, fragment cache and metrics of one renderer. Each render counts for itself; the engine
keeps the cache, and the metrics of the last render that ended.
-/

namespace TreeRender

variable {F σ β U : Type}

/-- What lies outside of the library: the state of the user functions, and time. -/
structure World (σ : Type) where
  state : σ
  clock : Clock

/-- What one render counted, and when it began and ended if that was to be recorded. -/
structure Metrics where
  counters : Counters := {}
  startedAt : Option Nat := none
  finishedAt : Option Nat := none
  deriving DecidableEq

/-- The duration of the render in nanoseconds. -/
def Metrics.elapsed (m : Metrics) : Option Nat :=
  match m.startedAt, m.finishedAt with
  | some start, some finish => some (finish - start)
  | _, _ => none

structure Engine where
  config : Config
  cache : FragmentCache
  metrics : Metrics := {}

/-- How a render ended, and all that it may have changed. -/
structure Rendered (σ β α : Type) where
  result : Except RenderError α
  metrics : Metrics
  cache : FragmentCache
  world : World σ
  backend : β

namespace Engine

/-- An engine for a configuration, if that is valid. -/
def new (config : Config) : Logged (Except ConfigError Engine) := do
  match ← config.validate with
  | .error e => return .error e
  | .ok () =>
    return .ok { config, cache := FragmentCache.empty config.cacheSize config.cacheTtl }

def clearCache (engine : Engine) : Engine := { engine with cache := engine.cache.clear }

/-- A reading of the clock, if times are recorded. -/
def recordTime (config : Config) (clock : Clock) : Option Nat × Clock :=
  if config.enableMonitoring then (some clock.now, clock.tick) else (none, clock)

/-- The state in which a render begins, and the time when it does. -/
def start (engine : Engine) (world : World σ) (backend : β) : Option Nat × WalkState σ β :=
  let (startedAt, clock) := recordTime engine.config world.clock
  (startedAt, { state := world.state, clock, cache := engine.cache, backend })

def finish {α : Type} (engine : Engine) (startedAt : Option Nat) (result : Except RenderError α)
    (s : WalkState σ β) : Rendered σ β α :=
  let (finishedAt, clock) := recordTime engine.config s.clock
  { result, metrics := { counters := s.counters, startedAt, finishedAt }, cache := s.cache,
    world := { state := s.state, clock }, backend := s.backend }

/-- Runs a part of a walk as a render of its own. -/
def run {α : Type} (engine : Engine) (world : World σ) (backend : β) (x : Walk σ β α) :
    Logged (Rendered σ β α) := do
  let (startedAt, s) := engine.start world backend
  let (result, s) ← x.run.run s
  return engine.finish startedAt result s

/-- Renders a complete tree, which starts at depth one. -/
def render (engine : Engine) (program : Program F σ) (backend : Backend F β U) (node : Node F)
    (world : World σ) (b : β) : Logged (Rendered σ β U) :=
  engine.run world b (walk program engine.config backend 1 node)

def after {α : Type} (engine : Engine) (rendered : Rendered σ β α) : Engine :=
  { engine with cache := rendered.cache, metrics := rendered.metrics }

end Engine

end TreeRender
