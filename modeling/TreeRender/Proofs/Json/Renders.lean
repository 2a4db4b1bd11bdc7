import TreeRender.Proofs.Depth.FunctionFree
import TreeRender.Proofs.Json.Trees
import TreeRender.Proofs.Renderer.Endings
import TreeRender.Proofs.Renderer.Twins

/-!
# Rendering trees from JSON

Whatever the JSON value is, rendering the tree read from it calls nothing and fails only at the
depth limit. What is malformed stays contained: the value and its cleaned form render alike.
-/

namespace TreeRender

open Markup MarkupStream Node

variable {F H N σ : Type} {config : Config}

private theorem outlining_ofJson_errors (v : Json) (program : Program F σ) (state : σ) :
    (outlining program config (ofJson v).value state).2.counters.errors = 0 :=
  (outlining_functionFree program config (functionFree_ofJson v) state).2

private theorem outlining_ofJson_ending (v : Json) (program : Program F σ) (state : σ) :
    SucceedsIff config ((ofJson v : Logged (Node F)).value.height ≤ config.maxDepth)
      (outlining program config (ofJson v).value state).1 := by
  rw [(outlining_functionFree program config (functionFree_ofJson v) state).1]
  exact ⟨fun hfits => ⟨_, if_pos hfits⟩, fun hno => if_neg hno⟩

/-- A tree read from JSON has no functions, so every backend and every stream renders it without
counting a failure, and without error exactly if it is no higher than the depth limit. The cleaned
value gives the same from the same renderer: as markup, as a drained stream, and as live nodes, with
the host left the same. -/
theorem json_renders_cleaned {r : MarkupRenderer F} {live : LiveRenderer H} {host : Dom.Host F H N}
    (hr : r.Reachable config) (hlive : live.Reachable host config) (v : Json)
    (program : Program F σ) (container : Option N) (world world' : World σ) :
    let node : Node F := (ofJson v).value
    let clean : Node F := (ofJson v.cleaned).value
    node.containsFunction = false ∧
    (∀ {β U : Type} (engine : Engine) (backend : Backend F β U) (b : β),
      SucceedsIff engine.config (node.height ≤ engine.config.maxDepth)
          (engine.render program backend node world b).value.result ∧
        (engine.render program backend node world b).value.metrics.counters.errors = 0) ∧
    (∃ items last, Drains (MarkupStream.new r program node world).next.value items last ∧
      SucceedsIff config (node.height ≤ config.maxDepth) (outcome items) ∧
      last.engine.metrics.counters.errors = 0) ∧
    (v.DistinctKeys →
      (r.render program clean world').value.result = (r.render program node world).value.result ∧
      (config.encoding = .utf8 → ∃ items last items' last' result,
        Drains (MarkupStream.new r program node world).next.value items last ∧
        Drains (MarkupStream.new r program clean world').next.value items' last' ∧
        Delivers items result ∧ Delivers items' result) ∧
      (live.render host program clean container world').value.result =
        (live.render host program node container world).value.result ∧
      ∀ nodes, (live.render host program node container world).value.result = .ok nodes →
        (live.render host program clean container world').value.renderer.host =
          (live.render host program node container world).value.renderer.host) := by
  intro node clean
  have hsound := hr.sound
  have hsoundlive : live.Sound F config := hlive.sound
  have hfree : node.containsFunction = false := functionFree_ofJson v
  refine ⟨hfree, fun engine backend b => engine.render_functionFree program backend hfree world b,
    ?_, fun hdistinct => ?_⟩
  · obtain ⟨items, last, hdrains, hending, herrors⟩ := hsound.ending_drain program node world
    exact ⟨items, last, hdrains, (outlining_ofJson_ending v program world.state).of_ending hending,
      herrors.trans (outlining_ofJson_errors v program world.state)⟩
  · have twin : Outline.TwinResults (outlining program config node world.state).1
        (outlining program config clean world'.state).1 :=
      (twin_ofJson v hdistinct).outlining hfree (functionFree_ofJson v.cleaned) program program
        config world.state world'.state
    refine ⟨hsound.render_twin twin, fun hencoding => ?_,
      hsoundlive.render_twin host container twin⟩
    exact hsound.drain_twin twin hencoding (outlining_ofJson_errors v program world.state)
      (outlining_ofJson_errors v.cleaned program world'.state)

/-- An object with a second key, around props of which one has no meaning. -/
def strayJson : Json :=
  .object [("p", .object [("title", .array []), ("text", .string "a")]), ("div", .null)]

theorem json_renders_cleaned_stray :
    strayJson.DistinctKeys ∧
      strayJson.cleaned = .object [("p", .object [("title", .null), ("text", .string "a")])] ∧
      ((MarkupRenderer.fresh {} : MarkupRenderer String).render Program.counting
        (ofJson strayJson.cleaned).value { state := 0, clock := { reading := id } }).value.result =
          .ok "<p>a</p>" := by
  have hr : (MarkupRenderer.fresh {} : MarkupRenderer String).Reachable {} := .new rfl
  have hlive : (LiveRenderer.fresh {} {} : LiveRenderer (Dom.Document String)).Reachable
      Dom.Document.host {} := .new rfl
  have hdistinct : strayJson.DistinctKeys :=
    ⟨by decide, ⟨by decide, trivial, trivial, trivial⟩, trivial, trivial⟩
  have hrendered : ((MarkupRenderer.fresh {} : MarkupRenderer String).render Program.counting
      (ofJson strayJson).value { state := 0, clock := { reading := id } }).value.result =
        .ok "<p>a</p>" := rfl
  obtain ⟨-, -, -, hclean⟩ := json_renders_cleaned hr hlive strayJson Program.counting none
    { state := 0, clock := { reading := id } } { state := 0, clock := { reading := id } }
  exact ⟨hdistinct, rfl, (hclean hdistinct).1.trans hrendered⟩

end TreeRender
