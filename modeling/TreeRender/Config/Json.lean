import TreeRender.Config.Basic
import TreeRender.Json.Skip
import TreeRender.Json.Typed
import TreeRender.Json.Value

/-!
# Configurations as JSON

A configuration is written as an object with all options. It is read from an object in which every
option may be missing, or from an array of options in the same order that may end early. Unknown
keys are passed over, whatever their values.
-/

namespace TreeRender

namespace Json.Reader

def encodingNamed (name : String) : Reader Encoding :=
  match Encoding.ofName? name with
  | some encoding => return encoding
  | none => fail .mismatched

/-- An encoding: its name, or an object with its name as the only key and null as the value. -/
def encoding : Reader Encoding := do
  match ← peekToken? with
  | none => fail .truncated
  | some c =>
    if c = '"' then encodingNamed (← string)
    else if c = '\x7b' then
      skip 1
      let encoding ← encodingNamed (← key)
      colon
      startingWith 'n' nullRest
      match ← peekToken? with
      | none => fail .truncated
      | some c =>
        if c = '\x7d' then
          skip 1
          return encoding
        else fail .malformed
    else fail .malformed

end Json.Reader

namespace Config

open Json Json.Reader

/-- The time to live as written: whole milliseconds, as far as 64 bits hold them. -/
def writtenTtl (nanoseconds : Nat) : Nat := min (nanoseconds / millisecond) (UInt64.size - 1)

def naturalJson (n : Nat) : Json := .number (.natural n)

def optionalJson {α : Type} (toJson : α → Json) : Option α → Json
  | none => .null
  | some a => toJson a

/-- One option: its key, how it is written and how it is read. -/
structure Field where
  key : String
  write : Config → Json
  read : Config → Reader Config

/-- All options in the order in which they are written. -/
def fields : List Field :=
  [⟨"enableCache", fun c => .bool c.enableCache, fun c => return { c with enableCache := ← bool }⟩,
    ⟨"cacheSize", fun c => naturalJson c.cacheSize,
      fun c => return { c with cacheSize := ← natural }⟩,
    ⟨"cacheTTL", fun c => optionalJson (naturalJson ∘ writtenTtl) c.cacheTtl,
      fun c => return { c with cacheTtl := (← optional natural).map (· * millisecond) }⟩,
    ⟨"cacheComplexityLimit", fun c => naturalJson c.cacheComplexityLimit,
      fun c => return { c with cacheComplexityLimit := ← natural }⟩,
    ⟨"minify", fun c => .bool c.minify, fun c => return { c with minify := ← bool }⟩,
    ⟨"maxDepth", fun c => naturalJson c.maxDepth,
      fun c => return { c with maxDepth := ← natural }⟩,
    ⟨"chunkSize", fun c => naturalJson c.chunkSize,
      fun c => return { c with chunkSize := ← natural }⟩,
    ⟨"bufferSize", fun c => naturalJson c.bufferSize,
      fun c => return { c with bufferSize := ← natural }⟩,
    ⟨"yieldThreshold", fun c => naturalJson c.yieldThreshold,
      fun c => return { c with yieldThreshold := ← natural }⟩,
    ⟨"encoding", fun c => .string c.encoding.name,
      fun c => return { c with encoding := ← Json.Reader.encoding }⟩,
    ⟨"enableHydration", fun c => .bool c.enableHydration,
      fun c => return { c with enableHydration := ← bool }⟩,
    ⟨"namespace", fun c => optionalJson .string c.defaultNamespace,
      fun c => return { c with defaultNamespace := ← optional string }⟩,
    ⟨"throwOnError", fun c => .bool c.throwOnError,
      fun c => return { c with throwOnError := ← bool }⟩,
    ⟨"errorFallback", fun c => .string c.errorFallback,
      fun c => return { c with errorFallback := ← string }⟩,
    ⟨"enableMonitoring", fun c => .bool c.enableMonitoring,
      fun c => return { c with enableMonitoring := ← bool }⟩]

def members (c : Config) : List (String × Json) := fields.map fun f => (f.key, f.write c)

def toJson (c : Config) : Json := .object c.members

def text (c : Config) : String := c.toJson.text

/-- Reads one member: the configuration so far comes with the keys that have been read. -/
def readMember (key : String) (read : List String × Config) :
    Reader (List String × Config) := do
  match fields.find? (·.key = key) with
  | none =>
    colon
    skipValue
    return read
  | some field =>
    if read.1.contains key then fail .mismatched
    else
      colon
      return (key :: read.1, ← field.read read.2)

/-- Reads options in order until the array ends. -/
def readItems : List Field → (first : Bool) → Config → Reader Config
  | [], _, c => do
    match ← peekToken? with
    | none => fail .truncated
    | some bracket =>
      if bracket = ']' then
        skip 1
        return c
      else fail .malformed
  | field :: rest, first, c => do
    if ← hasItem first then readItems rest false (← field.read c) else return c

def reader : Reader Config := do
  match ← peekToken? with
  | none => fail .truncated
  | some c =>
    if c = '[' then
      skip 1
      readItems fields true {}
    else if c = '\x7b' then
      skip 1
      return (← membersRest readMember ([], {})).2
    else mismatch

def parse (text : String) : Except Fault Config := reader.run text

end Config

end TreeRender
