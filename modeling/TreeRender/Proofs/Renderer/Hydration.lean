import TreeRender.Proofs.Outline.Orders
import TreeRender.Proofs.Renderer.Streaming

/-!
# Hydration and streams

With hydration on, a render gives the inner handlers of a tree their ids first and a stream the
outer ones. So a drained stream joins to the markup of a render exactly for the trees in which no
element with handlers to publish stands inside of another.
-/

namespace TreeRender

open Markup

variable {F σ : Type}

namespace MarkupRenderer

open MarkupStream

variable {config : Config} {r : MarkupRenderer F}

private theorem Sound.hydrated_results (h : r.Sound config) (hencoding : config.encoding = .utf8)
    (hhydrate : config.enableHydration = true) (hminify : config.minify = false)
    (program : Program F σ) (node : Node F) {world world' : World σ}
    (hstate : world.state = world'.state) :
    ∃ items last, Drains (MarkupStream.new r program node world').next.value items last ∧
      (r.render program node world).value.result =
        (outlining program config node world.state).1.map
          (fun o => (o.bottomUp true config.errorFallback r.actions).1) ∧
      Delivers items ((outlining program config node world.state).1.map
        fun o => (o.topDown true config.errorFallback r.actions).1) := by
  have hfallback : config.minify = true → '<' ∉ config.errorFallback.toList := by
    rw [hminify]
    exact fun h => nomatch h
  obtain ⟨items, last, hdrains, hends⟩ := h.drains hfallback program node world'
  have hminifier : (MarkupStream.new r program node world').minifier =
      if config.minify then some {} else none := by
    rw [← h.configured]
    rfl
  have hdelivers := hends.delivers hencoding rfl hminifier
  have rendered := h.agree program node world
  have drained := h.agree_streamed program node world'
  rw [← hstate] at drained
  rw [hminify] at hdelivers
  refine ⟨items, last, hdrains, ?_, ?_⟩
  · rw [value_render, h.configured, hminify]
    rw [hhydrate] at rendered
    generalize r.walked program node world = p at rendered ⊢
    generalize outlining program config node world.state = q at rendered ⊢
    cases rendered with
    | ok hu _ => exact congrArg Except.ok (congrArg Prod.fst hu).symm
    | error _ => rfl
  · rw [hhydrate] at drained
    generalize r.streamed program node world' = p at drained hdelivers
    generalize outlining program config node world.state = q at drained ⊢
    cases drained with
    | ok hu _ =>
      have hmarkup := congrArg Prod.fst hu
      simp only [Except.map, hmarkup] at hdelivers ⊢
      exact hdelivers
    | error _ => exact hdelivers

/-- With hydration, a drained stream gives what a render gives from the same renderer and the same
state of the functions exactly if no element with handlers to publish stands inside of another. They
fail alike in any case. -/
theorem hydrated_drain_eq_render_iff (hr : r.Reachable config) (hencoding : config.encoding = .utf8)
    (hhydrate : config.enableHydration = true) (hminify : config.minify = false)
    (program : Program F σ) (node : Node F) (world world' : World σ)
    (hstate : world.state = world'.state) :
    ∃ items last, Drains (MarkupStream.new r program node world').next.value items last ∧
      (Delivers items (r.render program node world).value.result ↔
        ∀ o, (outlining program config node world.state).1 = .ok o → o.nests = false) ∧
      ∀ e, (r.render program node world).value.result = .error e ↔ Delivers items (.error e) := by
  obtain ⟨items, last, hdrains, hrendered, hdelivered⟩ :=
    hr.sound.hydrated_results hencoding hhydrate hminify program node hstate
  refine ⟨items, last, hdrains, ?_⟩
  rw [hrendered]
  cases houtline : (outlining program config node world.state).1 with
  | error cause =>
    rw [houtline] at hdelivered
    refine ⟨⟨fun _ o ho => (nomatch ho), fun _ => hdelivered⟩, fun e => ⟨?_, ?_⟩⟩
    · intro hcause
      cases hcause
      exact hdelivered
    · intro hcause
      exact hdelivered.unique hcause
  | ok o =>
    rw [houtline] at hdelivered
    have hagree : (o.topDown true config.errorFallback r.actions).1 =
        (o.bottomUp true config.errorFallback r.actions).1 ↔ o.nests = false := by
      constructor
      · intro hsame
        have hchars : (o.topDown true config.errorFallback r.actions).1.toList ++ [] =
            (o.bottomUp true config.errorFallback r.actions).1.toList ++ [] := by rw [hsame]
        exact (Outline.orders_inj (wellFormed_of_outlining houtline) hchars).1
      · intro hnests
        rw [Outline.orders_agree hnests]
    refine ⟨⟨?_, ?_⟩, fun e => ⟨fun he => (nomatch he), fun he => ?_⟩⟩
    · intro hsame o' ho'
      cases ho'
      exact hagree.1 (Except.ok.inj (hdelivered.unique hsame))
    · intro hnests
      have hmarkup := hagree.2 (hnests o rfl)
      simp only [Except.map, hmarkup] at hdelivered
      exact hdelivered
    · cases hdelivered.unique he

def nestedHandlers : Node String :=
  .element (((Element.new "a").on "click" "open").child
    (.element ((Element.new "b").on "click" "save")))

theorem hydrated_drain_ne_render_nested :
    ∃ items last, Drains (MarkupStream.new (fresh { enableHydration := true }) Program.counting
        nestedHandlers { state := 0, clock := { reading := id } }).next.value items last ∧
      ¬Delivers items ((fresh { enableHydration := true }).render Program.counting nestedHandlers
        { state := 0, clock := { reading := id } }).value.result := by
  have hr : (fresh { enableHydration := true } : MarkupRenderer String).Reachable
      { enableHydration := true } := .new rfl
  obtain ⟨items, last, hdrains, hsame, -⟩ := hydrated_drain_eq_render_iff hr rfl rfl rfl
    Program.counting nestedHandlers { state := 0, clock := { reading := id } }
    { state := 0, clock := { reading := id } } rfl
  have hnests : (outlining Program.counting { enableHydration := true } nestedHandlers
      0).1.toOption.map Outline.nests = some true := by decide +kernel
  refine ⟨items, last, hdrains, fun hdelivers => ?_⟩
  cases houtline : (outlining Program.counting { enableHydration := true } nestedHandlers 0).1 with
  | error e =>
    rw [houtline] at hnests
    cases hnests
  | ok o =>
    rw [houtline] at hnests
    have hflat : o.nests = false := hsame.1 hdelivers o houtline
    simp only [Except.toOption, Option.map_some, hflat, Option.some.injEq] at hnests
    cases hnests

end MarkupRenderer

end TreeRender
