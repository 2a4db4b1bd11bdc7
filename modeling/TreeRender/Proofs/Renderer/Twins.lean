import TreeRender.Proofs.Dom.Live
import TreeRender.Proofs.Renderer.Streaming
import TreeRender.Proofs.Stream.Smooth

/-!
# Renders of trees that show the same

Once the outlines of two trees show the same, renders of both from one renderer give the same. So
two ways to make a tree are compared on its outlines only, whatever the configuration makes of the
output. Streams need not be told apart by the fallback, where nothing fails.
-/

namespace TreeRender

open Markup MarkupStream

variable {F H N σ τ : Type} {config : Config}

namespace MarkupRenderer

variable {r : MarkupRenderer F}

private theorem Sound.smooth_of_uncounted (h : r.Sound config) {program : Program F σ}
    {node : Node F}
    {world : World σ}
    (herrors : (outlining program config node world.state).2.counters.errors = 0) :
    r.Smooth program node world := by
  have agree := h.agree_streamed program node world
  obtain ⟨rfl, hcache⟩ := h
  apply smooth_plan node ⟨hcache, Scene.noFailure_of_settled rfl⟩
  rw [drain_plan]
  exact agree.beside.errors.trans herrors

variable {program : Program F σ} {program' : Program F τ} {node node' : Node F} {world : World σ}
  {world' : World τ}
  (htwin : Outline.TwinResults (outlining program config node world.state).1
    (outlining program' config node' world'.state).1)

include htwin

theorem Sound.render_twin (h : r.Sound config) :
    (r.render program' node' world').value.result =
      (r.render program node world).value.result := by
  rw [h.result_eq, h.result_eq]
  apply htwin.map_eq
  intro o o' ho
  rw [ho.bottomUp_eq]

theorem Sound.drain_twin_of_smooth (h : r.Sound config) (hencoding : config.encoding = .utf8)
    (hsmooth : r.Smooth program node world) (hsmooth' : r.Smooth program' node' world') :
    ∃ items last items' last' result,
      Drains (MarkupStream.new r program node world).next.value items last ∧
      Drains (MarkupStream.new r program' node' world').next.value items' last' ∧
      Delivers items result ∧ Delivers items' result := by
  obtain ⟨items, last, hdrains, hdelivers, -⟩ := h.drain_result_of_smooth hencoding hsmooth
  obtain ⟨items', last', hdrains', hdelivers', -⟩ := h.drain_result_of_smooth hencoding hsmooth'
  have hsame := htwin.map_eq (f := fun o =>
    let html := (o.topDown config.enableHydration config.errorFallback r.actions).1
    if config.minify then Markup.minify html else html) fun o o' ho => by rw [ho.topDown_eq]
  rw [hsame] at hdelivers'
  exact ⟨items, last, items', last', _, hdrains, hdrains', hdelivers, hdelivers'⟩

theorem Sound.drain_twin (h : r.Sound config) (hencoding : config.encoding = .utf8)
    (herrors : (outlining program config node world.state).2.counters.errors = 0)
    (herrors' : (outlining program' config node' world'.state).2.counters.errors = 0) :
    ∃ items last items' last' result,
      Drains (MarkupStream.new r program node world).next.value items last ∧
      Drains (MarkupStream.new r program' node' world').next.value items' last' ∧
      Delivers items result ∧ Delivers items' result :=
  h.drain_twin_of_smooth htwin hencoding (h.smooth_of_uncounted herrors)
    (h.smooth_of_uncounted herrors')

end MarkupRenderer

namespace LiveRenderer

variable {r : LiveRenderer H} {program : Program F σ} {program' : Program F τ}
  {node node' : Node F} {world : World σ} {world' : World τ}

theorem Sound.render_twin (h : r.Sound F config) (host : Dom.Host F H N) (container : Option N)
    (htwin : Outline.TwinResults (outlining program config node world.state).1
      (outlining program' config node' world'.state).1) :
    (r.render host program' node' container world').value.result =
        (r.render host program node container world).value.result ∧
      ∀ nodes, (r.render host program node container world).value.result = .ok nodes →
        (r.render host program' node' container world').value.renderer.host =
          (r.render host program node container world).value.renderer.host := by
  obtain ⟨hresult, hhost⟩ := h.live_eq host program node container world
  obtain ⟨hresult', hhost'⟩ := h.live_eq host program' node' container world'
  refine ⟨?_, fun nodes hnodes => ?_⟩
  · rw [hresult, hresult']
    apply htwin.map_eq
    intro o o' ho
    simp only [ho.live_eq]
  · rw [hresult] at hnodes
    generalize (outlining program config node world.state).1 = p at htwin hhost hnodes
    generalize (outlining program' config node' world'.state).1 = q at htwin hhost'
    cases htwin with
    | error e => cases hnodes
    | ok ho => simp only [hhost _ rfl, hhost' _ rfl, ho.live_eq]

end LiveRenderer

end TreeRender
