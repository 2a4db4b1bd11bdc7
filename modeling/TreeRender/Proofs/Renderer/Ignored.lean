import TreeRender.Proofs.Outline.Ignored
import TreeRender.Proofs.Renderer.Twins

/-!
# Renders and content that is not entered

What stands in void elements, or in elements whose name is not valid, decides which elements around
it are cached and under which keys, and which way a stream takes. None of that shows: all renders
give the same whatever stands there, and call the same functions.
-/

namespace TreeRender

open Markup MarkupStream

variable {F H N σ : Type} {config : Config} {shared : Prop} {p q : Program F σ} {n n' : Node F}
  {world world' : World σ}

private theorem MarkupRenderer.Sound.drain_state {r : MarkupRenderer F} (h : r.Sound config)
    (hfallback : config.minify = true → '<' ∉ config.errorFallback.toList) (program : Program F σ)
    (node : Node F) (world : World σ) :
    ∃ items last, Drains (MarkupStream.new r program node world).next.value items last ∧
      last.close.2.state = (outlining program config node world.state).2.state := by
  obtain ⟨items, last, hdrains, hends⟩ := h.drains hfallback program node world
  have hbeside := (h.agree_streamed program node world).beside
  exact ⟨items, last, hdrains, hends.state_close.trans hbeside.state⟩

/-- Trees that differ only in the text and the children of elements that are not entered, also
where functions return them, are rendered alike by a renderer that went through anything: as markup,
as a drained stream and as live nodes, with the host left the same. Each time the same functions are
called in the same order. -/
theorem ignored_content_invisible {r : MarkupRenderer F} {live : LiveRenderer H}
    {host : Dom.Host F H N} (hr : r.Reachable config) (hlive : live.Reachable host config)
    (hencoding : config.encoding = .utf8)
    (hfallback : config.minify = true → '<' ∉ config.errorFallback.toList)
    (h : p.ReturnsAlike shared q) (hn : n.EnteredAlike shared n') (container : Option N)
    (hstate : world'.state = world.state) :
    ((r.render q n' world').value.result = (r.render p n world).value.result ∧
      (r.render q.recorded n' world'.recorded).value.world.state =
        (r.render p.recorded n world.recorded).value.world.state) ∧
    (∃ items last items' last' result,
      Drains (MarkupStream.new r p n world).next.value items last ∧
      Drains (MarkupStream.new r q n' world').next.value items' last' ∧
      Delivers items result ∧ Delivers items' result) ∧
    (∃ items last items' last',
      Drains (MarkupStream.new r p.recorded n world.recorded).next.value items last ∧
      Drains (MarkupStream.new r q.recorded n' world'.recorded).next.value items' last' ∧
      last'.close.2.state = last.close.2.state) ∧
    (live.render host q n' container world').value.result =
      (live.render host p n container world).value.result ∧
    (∀ nodes, (live.render host p n container world).value.result = .ok nodes →
      (live.render host q n' container world').value.renderer.host =
        (live.render host p n container world).value.renderer.host) ∧
    (live.render host q.recorded n' container world'.recorded).value.world.state =
      (live.render host p.recorded n container world.recorded).value.world.state := by
  have hsound := hr.sound
  have hsoundlive : live.Sound F config := hlive.sound
  have htwin : Outline.TwinResults (outlining p config n world.state).1
      (outlining q config n' world'.state).1 := by
    rw [hstate]
    exact (outlining_enteredAlike h config hn world.state).1
  have hcalls : (outlining q.recorded config n' world'.recorded.state).2.state =
      (outlining p.recorded config n world.recorded.state).2.state := by
    have hrecorded : (world'.recorded : World (Recorded F σ)).state = world.recorded.state :=
      congrArg (·, []) hstate
    rw [hrecorded, (outlining_enteredAlike h.recorded config hn world.recorded.state).2]
  refine ⟨⟨hsound.render_twin htwin, ?_⟩, ?_, ?_, ?_⟩
  · rw [(hsound.outlined q.recorded n' world'.recorded).2,
      (hsound.outlined p.recorded n world.recorded).2, hcalls]
  · exact hsound.drain_twin_of_smooth htwin hencoding (hsound.smooth (fun _ => hfallback) p n world)
      (hsound.smooth (fun _ => hfallback) q n' world')
  · obtain ⟨items, last, hdrains, hlast⟩ :=
      hsound.drain_state hfallback p.recorded n world.recorded
    obtain ⟨items', last', hdrains', hlast'⟩ :=
      hsound.drain_state hfallback q.recorded n' world'.recorded
    exact ⟨items, last, items', last', hdrains, hdrains', by rw [hlast', hlast, hcalls]⟩
  · obtain ⟨hnodes, hhost⟩ := hsoundlive.render_twin host container htwin
    refine ⟨hnodes, hhost, ?_⟩
    rw [(hsoundlive.outlined host q.recorded n' container world'.recorded).2,
      (hsoundlive.outlined host p.recorded n container world.recorded).2, hcalls]

theorem ignored_content_invisible_break :
    let page (br : Element String (Node String)) : Node String :=
      .element ((Element.new "p").child (.element br))
    let called := page (((Element.new "BR").withComputedText "tick").child
      (.component (.producer "tick")))
    let bare := page (Element.new "BR")
    let world : World Nat := { state := 0, clock := { reading := id } }
    let config : Config := { minify := true, errorFallback := "failed" }
    called.containsFunction = true ∧ bare.containsFunction = false ∧
      ((MarkupRenderer.fresh config).render Program.counting called world).value.result =
        .ok "<p><BR></p>" ∧
      ((MarkupRenderer.fresh config).render Program.counting.recorded called
        world.recorded).value.world.state.2 = [] := by
  intro page called bare world config
  have hr : (MarkupRenderer.fresh config : MarkupRenderer String).Reachable config := .new rfl
  have hlive : (LiveRenderer.fresh config {} : LiveRenderer (Dom.Document String)).Reachable
      Dom.Document.host config := .new rfl
  have hfallback : '<' ∉ config.errorFallback.toList := by decide
  have halike : called.EnteredAlike True bare :=
    .element rfl rfl rfl (.some (.ignored rfl rfl (by decide)))
  have hstate : world.state = world.state := rfl
  obtain ⟨⟨hresult, hcalls⟩, -⟩ := ignored_content_invisible hr hlive rfl (fun _ => hfallback)
    (.refl Program.counting) halike none hstate
  have hbare : ((MarkupRenderer.fresh config).render Program.counting bare world).value.result =
      .ok "<p><BR></p>" := by decide +kernel
  have hsilent : ((MarkupRenderer.fresh config).render Program.counting.recorded bare
      world.recorded).value.world.state.2 = [] := by decide +kernel
  have hsame := (congrArg Prod.snd hcalls).symm.trans hsilent
  exact ⟨by decide, by decide, hresult.symm.trans hbare, hsame⟩

end TreeRender
