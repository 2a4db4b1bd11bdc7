import TreeRender.Config.Basic
import TreeRender.Log

/-!
# Checks and presets

When a renderer is made its configuration is checked: limits of zero are refused, and values likely
to cause trouble are reported. The presets are named configurations per kind of output and
environment.
-/

namespace TreeRender

namespace Config

def warnIf (condition : Bool) (message : String) : Logged Unit :=
  if condition then warn message else pure ()

def reportRisks (c : Config) : Logged Unit := do
  warnIf (c.maxDepth > 10000)
    s!"maxDepth {c.maxDepth} risks overflowing the stack before the depth guard trips."
  warnIf (c.chunkSize < 64)
    s!"chunkSize {c.chunkSize} produces very small chunks. Expect significant per-chunk overhead."
  warnIf (c.chunkSize > 16 * 1024 * 1024)
    s!"chunkSize {c.chunkSize} effectively disables streaming."
  warnIf (c.bufferSize > 64 * 1024 * 1024)
    s!"bufferSize {c.bufferSize} preallocates a lot of memory per render."
  warnIf (c.enableCache && c.cacheSize > 100000)
    s!"cacheSize {c.cacheSize} may hold a large amount of markup in memory."
  warnIf (c.cacheComplexityLimit > 10000)
    s!"cacheComplexityLimit {c.cacheComplexityLimit} allows caching very large fragments."

def zeroLimit? (c : Config) : Option String :=
  if c.maxDepth = 0 then some "maxDepth"
  else if c.chunkSize = 0 then some "chunkSize"
  else if c.yieldThreshold = 0 then some "yieldThreshold"
  else none

theorem zeroLimit?_eq_none {c : Config} : c.zeroLimit? = none ↔
    c.maxDepth ≠ 0 ∧ c.chunkSize ≠ 0 ∧ c.yieldThreshold ≠ 0 := by
  unfold zeroLimit?
  split
  · simp_all
  · split
    · simp_all
    · split <;> simp_all

def validate (c : Config) : Logged (Except ConfigError Unit) :=
  match c.zeroLimit? with
  | some option => pure (.error (.nonPositive option))
  | none => do
    reportRisks c
    return .ok ()

theorem value_validate (c : Config) : c.validate.value =
    match c.zeroLimit? with
    | some option => .error (.nonPositive option)
    | none => .ok () := by
  unfold validate
  split <;> simp_all

end Config

inductive Target where
  | string
  | stream
  | dom

inductive Environment where
  /-- Plain, uncached output. Failures surface as errors. -/
  | development
  /-- Cached and minified output. Failures degrade to the fallback. -/
  | production

def Environment.config : Environment → Config
  | .development => { enableCache := false, throwOnError := true, enableMonitoring := true }
  | .production => { cacheSize := 5000, cacheTtl := some (3600 * second), minify := true }

def preset (target : Target) (environment : Environment) : Config :=
  let base := environment.config
  match target, environment with
  | .string, _ => base
  | .stream, .development =>
    { base with maxDepth := 1000, chunkSize := 4096, bufferSize := 32768, yieldThreshold := 50 }
  | .stream, .production =>
    { base with maxDepth := 1000, chunkSize := 16384, bufferSize := 32768, yieldThreshold := 50 }
  | .dom, .development => { base with enableCache := false, minify := false }
  | .dom, .production =>
    { base with enableCache := false, minify := false, enableHydration := true }

theorem validate_preset (target : Target) (environment : Environment) :
    (preset target environment).validate.value = .ok () := by
  cases target <;> cases environment <;> rfl

end TreeRender
