import TreeRender.Action
import TreeRender.Attribute
import TreeRender.Cache
import TreeRender.Config.Basic
import TreeRender.Config.Json
import TreeRender.Config.Preset
import TreeRender.Decimal.Notation
import TreeRender.Decimal.Shortest
import TreeRender.Dom.Document
import TreeRender.Dom.Events
import TreeRender.Dom.Renderer
import TreeRender.Encoding
import TreeRender.Engine
import TreeRender.Evaluate
import TreeRender.Json.Numbers
import TreeRender.Json.Parser
import TreeRender.Json.Reader
import TreeRender.Json.Skip
import TreeRender.Json.Strings
import TreeRender.Json.Typed
import TreeRender.Json.Value
import TreeRender.Log
import TreeRender.Markup.Minify
import TreeRender.Markup.Plan
import TreeRender.Markup.Renderer
import TreeRender.Markup.Stream
import TreeRender.Markup.Tag
import TreeRender.Markup.Text
import TreeRender.Node.Basic
import TreeRender.Node.Build
import TreeRender.Node.OfJson
import TreeRender.Node.Shape
import TreeRender.Program
import TreeRender.Proofs.Cache.Ageless
import TreeRender.Proofs.Cache.Bounded
import TreeRender.Proofs.Cache.Inclusion
import TreeRender.Proofs.Cache.LeastRecent
import TreeRender.Proofs.Cache.Recency
import TreeRender.Proofs.Cache.Valid
import TreeRender.Proofs.Calls
import TreeRender.Proofs.Config.RoundTrip
import TreeRender.Proofs.Containment.Calls
import TreeRender.Proofs.Containment.Outline
import TreeRender.Proofs.Containment.Rename
import TreeRender.Proofs.Containment.Renders
import TreeRender.Proofs.Containment.Replace
import TreeRender.Proofs.Containment.Written
import TreeRender.Proofs.Depth.Exact
import TreeRender.Proofs.Depth.FunctionFree
import TreeRender.Proofs.Depth.Height
import TreeRender.Proofs.Dom.Acyclic
import TreeRender.Proofs.Dom.Assemble
import TreeRender.Proofs.Dom.Finite
import TreeRender.Proofs.Dom.Fresh
import TreeRender.Proofs.Dom.Html
import TreeRender.Proofs.Dom.Live
import TreeRender.Proofs.Dom.Mirror
import TreeRender.Proofs.Dom.Namespaces
import TreeRender.Proofs.Dom.Nesting
import TreeRender.Proofs.Dom.Parity
import TreeRender.Proofs.Dom.Snapshot
import TreeRender.Proofs.Encoding.Decoding
import TreeRender.Proofs.Encoding.References
import TreeRender.Proofs.Evaluation
import TreeRender.Proofs.Failures.Calls
import TreeRender.Proofs.Failures.Counted
import TreeRender.Proofs.Failures.Ending
import TreeRender.Proofs.Failures.Fatal
import TreeRender.Proofs.Failures.Policy
import TreeRender.Proofs.Failures.Walks
import TreeRender.Proofs.Hydration.Accounts
import TreeRender.Proofs.Hydration.History
import TreeRender.Proofs.Hydration.Parts
import TreeRender.Proofs.Hydration.Reached
import TreeRender.Proofs.Hydration.Recording
import TreeRender.Proofs.Hydration.Registry
import TreeRender.Proofs.Hydration.Streams
import TreeRender.Proofs.Json.Distinct
import TreeRender.Proofs.Json.ReadBack
import TreeRender.Proofs.Json.Renders
import TreeRender.Proofs.Json.Trees
import TreeRender.Proofs.Json.Yields
import TreeRender.Proofs.Markup.Escape
import TreeRender.Proofs.Markup.Render
import TreeRender.Proofs.Metrics.Openings
import TreeRender.Proofs.Metrics.Output
import TreeRender.Proofs.Metrics.Tally
import TreeRender.Proofs.Minify.Collapse
import TreeRender.Proofs.Minify.Cuts
import TreeRender.Proofs.Minify.Lexemes
import TreeRender.Proofs.Minify.Pieces
import TreeRender.Proofs.Minify.Twice
import TreeRender.Proofs.Minify.Whole
import TreeRender.Proofs.Outline.Basic
import TreeRender.Proofs.Outline.Described
import TreeRender.Proofs.Outline.FunctionFree
import TreeRender.Proofs.Outline.Ignored
import TreeRender.Proofs.Outline.Markup
import TreeRender.Proofs.Outline.Orders
import TreeRender.Proofs.Outline.Realize
import TreeRender.Proofs.Outline.Twin
import TreeRender.Proofs.Outline.WellFormed
import TreeRender.Proofs.Reading.Document
import TreeRender.Proofs.Reading.Minified
import TreeRender.Proofs.Reading.Tags
import TreeRender.Proofs.Reading.Tokens
import TreeRender.Proofs.Renderer.Caching
import TreeRender.Proofs.Renderer.Chunking
import TreeRender.Proofs.Renderer.Encoded
import TreeRender.Proofs.Renderer.Endings
import TreeRender.Proofs.Renderer.History
import TreeRender.Proofs.Renderer.Hydration
import TreeRender.Proofs.Renderer.Ignored
import TreeRender.Proofs.Renderer.Minified
import TreeRender.Proofs.Renderer.Reading
import TreeRender.Proofs.Renderer.Stored
import TreeRender.Proofs.Renderer.Streaming
import TreeRender.Proofs.Renderer.Twins
import TreeRender.Proofs.Scoped.Height
import TreeRender.Proofs.Scoped.Outline
import TreeRender.Proofs.Scoped.Renders
import TreeRender.Proofs.Scoped.Resolved
import TreeRender.Proofs.Scoped.Settled
import TreeRender.Proofs.Shape.Complexity
import TreeRender.Proofs.Shape.Nesting
import TreeRender.Proofs.Signature.Alike
import TreeRender.Proofs.Signature.Faithful
import TreeRender.Proofs.Signature.Injective
import TreeRender.Proofs.Signature.Walks
import TreeRender.Proofs.Stream.Chunks
import TreeRender.Proofs.Stream.Drain
import TreeRender.Proofs.Stream.Dry
import TreeRender.Proofs.Stream.Outcome
import TreeRender.Proofs.Stream.Pieces
import TreeRender.Proofs.Stream.Pull
import TreeRender.Proofs.Stream.Pulls
import TreeRender.Proofs.Stream.Smooth
import TreeRender.Proofs.Stream.Steps
import TreeRender.Proofs.Stream.TopDown
import TreeRender.Proofs.Termination.Evaluation
import TreeRender.Proofs.Termination.Renders
import TreeRender.Proofs.Termination.Streams
import TreeRender.Proofs.Termination.Walks
import TreeRender.Proofs.Walk.Along
import TreeRender.Proofs.Walk.Closed
import TreeRender.Proofs.Walk.Making
import TreeRender.Proofs.Walk.Tracking
import TreeRender.Proofs.Walk.Traversal
import TreeRender.Scene
import TreeRender.Signature
import TreeRender.Text.Chars
import TreeRender.Text.Quoted
import TreeRender.Walk
