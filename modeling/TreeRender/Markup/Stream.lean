import TreeRender.Markup.Plan

/-!
# Streaming markup

A stream gives markup chunk by chunk, as it is pulled. A pull takes only as many steps as fill one
chunk: one of at least `chunkSize` bytes, or with `yieldThreshold` elements opened. The stream ends
after its last chunk or its first error.
-/

namespace TreeRender

open Markup (Plan)

variable {F σ : Type}

structure MarkupStream (F σ : Type) where
  engine : Engine
  startedAt : Option Nat
  walk : WalkState σ (Registry F)
  plan : Plan F σ
  /-- Markup that no chunk has taken yet. No capacity is reserved for it beforehand. -/
  buffer : String := ""
  /-- Elements opened since the last chunk was cut. -/
  opened : Nat := 0
  minifier : Option Markup.Minifier
  finished : Bool := false

namespace MarkupStream

def new (r : MarkupRenderer F) (program : Program F σ) (node : Node F) (world : World σ) :
    MarkupStream F σ :=
  let (startedAt, walk) := r.engine.start world r.actions
  { engine := r.engine, startedAt, walk, plan := Markup.plan program r.engine.config node,
    minifier := if r.engine.config.minify then some {} else none }

/-- Ends the stream, and with it the render. -/
def finish (s : MarkupStream F σ) : MarkupStream F σ :=
  let rendered := s.engine.finish s.startedAt (.ok ()) s.walk
  { s with
    engine := s.engine.after rendered
    walk := { s.walk with clock := rendered.world.clock }
    plan := .done
    finished := true }

/-- What the minifier, if there is one, makes of a piece of markup. -/
def minified (minifier : Option Markup.Minifier) (last : Bool) (raw : String) :
    String × Option Markup.Minifier :=
  match minifier with
  | none => (raw, none)
  | some m =>
    let (written, m) := m.feed raw.toList
    if last then
      let (rest, m) := m.finish
      (String.ofList (written ++ rest), some m)
    else (String.ofList written, some m)

/-- Cuts a chunk, which takes the buffer. A chunk that would be empty is none. -/
def takeChunk (last : Bool) (s : MarkupStream F σ) : Option String × MarkupStream F σ :=
  let (chunk, minifier) := minified s.minifier last s.buffer
  (if chunk.isEmpty then none else some (s.engine.config.encoding.encode chunk),
    { s with buffer := "", opened := 0, minifier })

/-- Adds a piece of markup, and cuts a chunk if there is enough for one. -/
def push (opens : Bool) (piece : String) (s : MarkupStream F σ) : Option String × MarkupStream F σ :=
  let s := { s with
    buffer := s.buffer ++ piece
    opened := if opens then s.opened + 1 else s.opened }
  let config := s.engine.config
  if config.chunkSize ≤ s.buffer.utf8ByteSize || config.yieldThreshold ≤ s.opened then
    s.takeChunk false
  else (none, s)

/-- What a pull gives: a chunk, or the error that ends the stream. -/
abbrev Item := Except RenderError String

/-- Takes the steps of a plan until there is something to give. -/
def pullFrom : Plan F σ → MarkupStream F σ → Logged (Option Item × MarkupStream F σ)
  | .done, s =>
    let (chunk, s) := s.finish.takeChunk true
    return (chunk.map .ok, s)
  | .write opens piece rest, s => do
    let (result, walk) ← piece.run.run s.walk
    let s := { s with walk, plan := rest }
    match result with
    | .error e => return (some (.error e), s.finish)
    | .ok text =>
      match s.push opens text with
      | (some chunk, s) => return (some (.ok chunk), s)
      | (none, s) => pullFrom rest s
  | .call component resume rest, s => do
    let (result, walk) ← (Walk.onScene component).run.run s.walk
    let s := { s with walk }
    match result with
    | .error e => return (some (.error e), s.finish)
    | .ok (.ok node) => pullFrom (resume node) s
    | .ok (.error (.failed cause)) =>
      let config := s.engine.config
      let (result, walk) ←
        (recover config (Markup.backend config.enableHydration) cause).run.run s.walk
      let s := { s with walk, plan := rest }
      match result with
      | .error e => return (some (.error e), s.finish)
      | .ok text =>
        match s.push false text with
        | (some chunk, s) => return (some (.ok chunk), s)
        | (none, s) => pullFrom rest s
    | .ok (.error e) => return (some (.error e), s.finish)

/-- The next chunk, or none once the stream has ended. -/
def next (s : MarkupStream F σ) : Logged (Option Item × MarkupStream F σ) :=
  if s.finished then return (none, s) else pullFrom s.plan s

def close (s : MarkupStream F σ) : MarkupRenderer F × World σ :=
  ({ engine := { s.engine with cache := s.walk.cache }, actions := s.walk.backend },
    { state := s.walk.state, clock := s.walk.clock })

end MarkupStream

end TreeRender
