import TreeRender.Proofs.Renderer.Streaming

/-!
# Caching does not show

A renderer that went through any history gives what one without a cache gives, from the same
registry and the same state of the functions: the outline of the tree tells both, and knows no
cache.
-/

namespace TreeRender

open Markup

variable {F σ : Type}

def Config.withoutCache (config : Config) : Config := { config with enableCache := false }

private theorem Config.evaluatesLike_withoutCache {program : Program F σ} {config : Config}
    (hprovide : ∀ name depth s,
      program.provide name depth config s = program.provide name depth config.withoutCache s) :
    config.EvaluatesLike program config.withoutCache :=
  ⟨rfl, rfl, hprovide⟩

namespace MarkupRenderer

open MarkupStream

variable {config : Config} {r r₀ : MarkupRenderer F}

private theorem Sound.walked_withoutCache (h : r.Sound config) (h₀ : r₀.Sound config.withoutCache)
    (hactions : r₀.actions = r.actions) {program : Program F σ}
    (hlike : config.EvaluatesLike program config.withoutCache) (node : Node F)
    {world world₀ : World σ} (hstate : world.state = world₀.state) :
    (r.walked program node world).1 = (r₀.walked program node world₀).1 ∧
      (r.walked program node world).2.state = (r₀.walked program node world₀).2.state := by
  have agree := h.agree program node world
  have agree₀ := h₀.agree program node world₀
  rw [hstate, outlining_congr hlike] at agree
  rw [hactions] at agree₀
  exact agree.same agree₀

private theorem Sound.streamed_withoutCache (h : r.Sound config) (h₀ : r₀.Sound config.withoutCache)
    (hactions : r₀.actions = r.actions) {program : Program F σ}
    (hlike : config.EvaluatesLike program config.withoutCache) (node : Node F)
    {world world₀ : World σ} (hstate : world.state = world₀.state) :
    (r.streamed program node world).1 = (r₀.streamed program node world₀).1 ∧
      (r.streamed program node world).2.state = (r₀.streamed program node world₀).2.state := by
  have agree := h.agree_streamed program node world
  have agree₀ := h₀.agree_streamed program node world₀
  rw [hstate, outlining_congr hlike] at agree
  rw [hactions] at agree₀
  exact agree.same agree₀

/-- Whatever a renderer went through, its next render and its next stream give what they give
without a cache, and call the same functions in the same order. -/
theorem caching_invisible (hr : r.Reachable config) (hr₀ : r₀.Reachable config.withoutCache)
    (hactions : r₀.actions = r.actions) (hencoding : config.encoding = .utf8)
    (hfallback : config.minify = true → '<' ∉ config.errorFallback.toList)
    (program : Program F σ)
    (hprovide : ∀ name depth s,
      program.provide name depth config s = program.provide name depth config.withoutCache s)
    (node : Node F) (world world₀ : World σ) (hstate : world.state = world₀.state) :
    ((r.render program node world).value.result = (r₀.render program node world₀).value.result ∧
      (r.render program.recorded node world.recorded).value.world.state.2 =
        (r₀.render program.recorded node world₀.recorded).value.world.state.2) ∧
    (∃ items last items₀ last₀ result,
      Drains (MarkupStream.new r program node world).next.value items last ∧
      Drains (MarkupStream.new r₀ program node world₀).next.value items₀ last₀ ∧
      Delivers items result ∧ Delivers items₀ result) ∧
    ∃ items last items₀ last₀,
      Drains (MarkupStream.new r program.recorded node world.recorded).next.value items last ∧
      Drains (MarkupStream.new r₀ program.recorded node world₀.recorded).next.value items₀ last₀ ∧
      last.close.2.state.2 = last₀.close.2.state.2 := by
  have hsound := hr.sound
  have hsound₀ := hr₀.sound
  have hlike := Config.evaluatesLike_withoutCache hprovide
  have hrecorded : (world.recorded : World (Recorded F σ)).state = world₀.recorded.state :=
    congrArg (·, []) hstate
  refine ⟨⟨?_, ?_⟩, ?_, ?_⟩
  · have hsame := hsound.walked_withoutCache hsound₀ hactions hlike node hstate
    rw [value_render, value_render, hsound.configured, hsound₀.configured]
    exact congrArg (Except.map _) hsame.1
  · have hsame := hsound.walked_withoutCache hsound₀ hactions hlike.recorded node hrecorded
    exact congrArg Prod.snd hsame.2
  · obtain ⟨items, last, hdrains, hends⟩ := hsound.drains hfallback program node world
    obtain ⟨items₀, last₀, hdrains₀, hends₀⟩ := hsound₀.drains hfallback program node world₀
    have hsame := hsound.streamed_withoutCache hsound₀ hactions hlike node hstate
    have hdelivers := hends.delivers hencoding rfl (by rw [← hsound.configured]; rfl)
    have hencoding₀ : config.withoutCache.encoding = .utf8 := hencoding
    have hdelivers₀ := hends₀.delivers hencoding₀ rfl (by rw [← hsound₀.configured]; rfl)
    rw [← hsame.1] at hdelivers₀
    exact ⟨items, last, items₀, last₀, _, hdrains, hdrains₀, hdelivers, hdelivers₀⟩
  · obtain ⟨items, last, hdrains, hends⟩ :=
      hsound.drains hfallback program.recorded node world.recorded
    obtain ⟨items₀, last₀, hdrains₀, hends₀⟩ :=
      hsound₀.drains hfallback program.recorded node world₀.recorded
    have hsame := hsound.streamed_withoutCache hsound₀ hactions hlike.recorded node hrecorded
    refine ⟨items, last, items₀, last₀, hdrains, hdrains₀, ?_⟩
    rw [hends.state_close, hends₀.state_close, hsame.2]

theorem caching_invisible_hit :
    let page : Node String := .element ((Element.new "p").child (.element (Element.new "b")))
    let world : World Nat := { state := 0, clock := { reading := id } }
    let r := { ((fresh {}).render Program.counting page world).value.renderer with actions := {} }
    (r.render Program.counting page world).value.renderer.engine.metrics.counters.hits = 1 ∧
      (r.render Program.counting page world).value.result =
        ((fresh ({} : Config).withoutCache).render Program.counting page world).value.result := by
  intro page world r
  have hfresh : (fresh {} : MarkupRenderer String).Reachable {} := .new rfl
  have hr : r.Reachable {} := .changeActions {} (.render Program.counting page world hfresh)
  have hr₀ : (fresh ({} : Config).withoutCache : MarkupRenderer String).Reachable
      ({} : Config).withoutCache := .new rfl
  have hinvisible := caching_invisible hr hr₀ rfl rfl (fun h => nomatch h) Program.counting
    (fun _ _ _ => rfl) page world world rfl
  refine ⟨?_, hinvisible.1.1⟩
  decide +kernel

end MarkupRenderer

end TreeRender
