import TreeRender.Proofs.Dom.Parity
import TreeRender.Proofs.Stream.Outcome

/-!
# How renders end

A render to markup, a drained stream and a render to live nodes succeed or fail as the outlining of
the tree does, and count the failures that it counts, whatever the configuration makes of the
output.
-/

namespace TreeRender

open Markup MarkupStream

variable {F H N σ β U : Type} {config : Config}

theorem Walk.Agree.ending {R : β → U → Outline F → Prop} {p : Except RenderError U × WalkState σ β}
    {q : Except RenderError (Outline F) × WalkState σ Unit}
    (h : Agree (WalkState.Beside config F) R p q) : ending p.1 = ending q.1 := by
  cases h <;> rfl

namespace MarkupRenderer

variable {r : MarkupRenderer F}

theorem Sound.ending_render (h : r.Sound config) (program : Program F σ) (node : Node F)
    (world : World σ) : ending (r.render program node world).value.result =
      ending (outlining program config node world.state).1 := by
  rw [value_render]
  exact (ending_map _ _).trans (h.agree program node world).ending

theorem concludes_drain (r : MarkupRenderer F) (program : Program F σ) (node : Node F)
    (world : World σ) :
    ∃ items last, Drains (MarkupStream.new r program node world).next.value items last ∧
      Concludes (MarkupStream.new r program node world) (r.streamed program node world) items
        last := by
  have concludes : ∃ items last,
      Drains (pullFrom (plan program r.engine.config node)
        (MarkupStream.new r program node world)).value items last ∧
      Concludes (MarkupStream.new r program node world)
        (((plan program r.engine.config node).drain r.engine.config).exec
          (MarkupStream.new r program node world).walk) items last :=
    concludes_pullFrom _ rfl rfl
  have hstreamed : ((plan program r.engine.config node).drain r.engine.config).exec
      (MarkupStream.new r program node world).walk = r.streamed program node world := by
    rw [drain_plan]
    rfl
  rw [hstreamed] at concludes
  exact concludes

theorem Sound.ending_drain (h : r.Sound config) (program : Program F σ) (node : Node F)
    (world : World σ) :
    ∃ items last, Drains (MarkupStream.new r program node world).next.value items last ∧
      ending (outcome items) = ending (outlining program config node world.state).1 ∧
      last.engine.metrics.counters.errors =
        (outlining program config node world.state).2.counters.errors := by
  have agree := h.agree_streamed program node world
  obtain ⟨items, last, hdrains, hends⟩ := r.concludes_drain program node world
  refine ⟨items, last, hdrains, hends.outcome.trans agree.ending, ?_⟩
  rw [hends.engine]
  exact agree.beside.errors

theorem Sound.outlining_ok_of_render (h : r.Sound config) {program : Program F σ} {node : Node F}
    {world : World σ} {html : String}
    (hhtml : (r.render program node world).value.result = .ok html) :
    ∃ o, (outlining program config node world.state).1 = .ok o := by
  rw [← ending_eq_ok, ← h.ending_render program node world, hhtml]
  rfl

theorem Sound.outlining_ok_of_drain (h : r.Sound config) {program : Program F σ} {node : Node F}
    {world : World σ} {items : List Item} {last : MarkupStream F σ} {html : String}
    (hdrains : Drains (MarkupStream.new r program node world).next.value items last)
    (hdelivers : Delivers items (.ok html)) :
    ∃ o, (outlining program config node world.state).1 = .ok o := by
  obtain ⟨items', last', hdrains', hending, -⟩ := h.ending_drain program node world
  obtain ⟨rfl, -⟩ := hdrains.unique hdrains'
  obtain ⟨chunks, rfl, -⟩ := hdelivers
  rw [← ending_eq_ok, ← hending, outcome_ok]
  rfl

end MarkupRenderer

namespace LiveRenderer

variable {r : LiveRenderer H}

theorem Sound.ending_render (h : r.Sound F config) (host : Dom.Host F H N) (program : Program F σ)
    (node : Node F) (container : Option N) (world : World σ) :
    ending (r.render host program node container world).value.result =
      ending (outlining program config node world.state).1 := by
  rw [value_render]
  exact (h.agree (realizes_any host _ _) program node world).ending

theorem Sound.outlining_ok_of_render (h : r.Sound F config) {host : Dom.Host F H N}
    {program : Program F σ} {node : Node F} {container : Option N} {world : World σ}
    {nodes : List N}
    (hnodes : (r.render host program node container world).value.result = .ok nodes) :
    ∃ o, (outlining program config node world.state).1 = .ok o := by
  rw [← ending_eq_ok, ← h.ending_render host program node container world, hnodes]
  rfl

end LiveRenderer

end TreeRender
