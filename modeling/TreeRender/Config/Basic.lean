import TreeRender.Encoding

/-!
# Configuration

The options shared by all renderers and their defaults.
-/

namespace TreeRender

/-- Nanoseconds. -/
def millisecond : Nat := 1000000

def second : Nat := 1000 * millisecond

structure Config where
  enableCache : Bool := true
  /-- Maximum number of cached fragments. Zero stores nothing. -/
  cacheSize : Nat := 1000
  /-- Age in nanoseconds after which cached fragments are ignored. -/
  cacheTtl : Option Nat := some (300 * second)
  /-- Elements above this complexity are never cached. -/
  cacheComplexityLimit : Nat := 100
  minify : Bool := false
  maxDepth : Nat := 100
  /-- A chunk of a stream is cut at this many bytes. -/
  chunkSize : Nat := 16384
  /-- Initial capacity of output buffers in bytes. A buffer is a string here, and what is reserved
  for it makes no difference, so the option is only checked and written. -/
  bufferSize : Nat := 65536
  /-- A chunk of a stream is cut at this many opened elements. -/
  yieldThreshold : Nat := 100
  encoding : Encoding := .utf8
  enableHydration : Bool := false
  /-- For live elements outside of `svg` and `math`. -/
  defaultNamespace : Option String := none
  throwOnError : Bool := false
  /-- Stands in for failed subtrees. -/
  errorFallback : String := ""
  enableMonitoring : Bool := false
  deriving DecidableEq

end TreeRender
