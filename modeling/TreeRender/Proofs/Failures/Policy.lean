import TreeRender.Proofs.Failures.Walks
import TreeRender.Proofs.Renderer.Endings

/-!
# The failure policy

Functions may fail in any way and anywhere: in the walk, in a component that comes out of another
one, in a computed text, or in a node that a provider has resolved, through any number of providers.
Failures either never surface, or the first one ends the render and is the only one that counts.
-/

namespace TreeRender

open Markup MarkupStream

variable {F H N σ α γ : Type}

/-- How many failures a render counts that ends in this way, if failures are to surface. -/
def surfacedFailures : Except RenderError α → Nat
  | .error (.failed _) => 1
  | _ => 0

/-- What a render may come to, and how many failures it may have counted. -/
structure FollowsPolicy (config : Config) (result : Except RenderError α) (errors : Nat) :
    Prop where
  contained : config.throwOnError = false → ∀ cause, result ≠ .error (.failed cause)
  surfaced : config.throwOnError = true → errors = surfacedFailures result
  valid : ∀ cause, result ≠ .error (.config cause)

variable {config : Config}

private theorem surfacedFailures_ending (result : Except RenderError α) :
    surfacedFailures (ending result) = surfacedFailures result := by
  cases result with
  | ok a => rfl
  | error e => cases e <;> rfl

private theorem FollowsPolicy.of_ending {result : Except RenderError α}
    {result' : Except RenderError γ}
    {errors : Nat} (hending : ending result = ending result')
    (h : FollowsPolicy config result' errors) : FollowsPolicy config result errors where
  contained hquiet cause he :=
    h.contained hquiet cause (ending_eq_error.1 (hending ▸ ending_eq_error.2 he))
  surfaced hthrow := by
    rw [h.surfaced hthrow, ← surfacedFailures_ending, ← hending, surfacedFailures_ending]
  valid cause he := h.valid cause (ending_eq_error.1 (hending ▸ ending_eq_error.2 he))

private theorem Scene.Ended.followsPolicy {result : Except RenderError α} {s : Scene σ}
    (h : Scene.Ended config result s) : FollowsPolicy config result s.counters.errors := by
  match result with
  | .ok _ =>
    have hcalm : s.Calm config 0 := h
    exact ⟨fun _ _ he => (nomatch he), hcalm.errors, fun _ he => (nomatch he)⟩
  | .error (.depthExceeded _ _) =>
    exact ⟨fun _ _ he => (nomatch he), h.2.2.errors, fun _ he => (nomatch he)⟩
  | .error (.failed _) =>
    obtain ⟨hthrow, hcalm⟩ := h
    refine ⟨fun hquiet => ?_, hcalm.errors, fun _ he => (nomatch he)⟩
    rw [hthrow] at hquiet
    cases hquiet
  | .error (.config _) => exact h.elim

private theorem ended_outlining (program : Program F σ) (node : Node F) (state : σ) :
    Scene.Ended config (outlining program config node state).1
      (outlining program config node state).2.toScene := by
  have settles : Walk.Settles config (outlineFrom program config (config.levelsAt 1) 1 node) :=
    (Walk.closed_settles program config Outline.backend).walk trivial
  exact settles (outlineStart state) (Scene.calm_start state)

/-- Where failures are to be contained, only the depth limit ends a render. Where they are to
surface, a render counts one failure if that is how it ends, and none if it ends in another way. -/
theorem render_followsPolicy {r : MarkupRenderer F} {live : LiveRenderer H}
    {host : Dom.Host F H N} (hr : r.Reachable config) (hlive : live.Reachable host config)
    (program : Program F σ) (node : Node F) (container : Option N) (world : World σ) :
    let text := (r.render program node world).value
    let nodes := (live.render host program node container world).value
    FollowsPolicy config text.result text.renderer.engine.metrics.counters.errors ∧
    FollowsPolicy config nodes.result nodes.renderer.engine.metrics.counters.errors ∧
    ∃ items last, Drains (MarkupStream.new r program node world).next.value items last ∧
      FollowsPolicy config (outcome items) last.close.1.engine.metrics.counters.errors := by
  intro text nodes
  have policy : FollowsPolicy config _ _ := (ended_outlining program node world.state).followsPolicy
  have hsound := hr.sound
  have hsoundlive : live.Sound F config := hlive.sound
  refine ⟨?_, ?_, ?_⟩
  · rw [(hsound.outlined program node world).1]
    exact policy.of_ending (hsound.ending_render program node world)
  · rw [(hsoundlive.outlined host program node container world).1]
    exact policy.of_ending (hsoundlive.ending_render host program node container world)
  · obtain ⟨items, last, hdrains, hending, herrors⟩ := hsound.ending_drain program node world
    have hclosed : last.close.1.engine.metrics.counters.errors = _ := herrors
    refine ⟨items, last, hdrains, ?_⟩
    rw [hclosed]
    exact policy.of_ending hending

/-- A producer that fails, resolved by an inner provider that panics afterwards, which an outer
provider resolves before it returns a text as if nothing had been. -/
def Program.stubborn : Program String Nat where
  produce _ calls := return (.error (.refused "broken"), calls + 1)
  provide name _ _ calls :=
    if name = "outer" then
      .resolve (return (.component (.provider "inner"), calls + 1)) fun _ calls =>
        .finish (return (.ok (.text (.str "fine")), calls))
    else
      .resolve (return (.component (.producer "broken"), calls + 1)) fun _ calls =>
        .finish (return (.error (.panicked none), calls))
  compute _ calls := return (.error none, calls)

theorem render_followsPolicy_stubborn :
    ((MarkupRenderer.fresh { throwOnError := true }).render Program.stubborn
        (.component (.provider "outer"))
        { state := 0, clock := { reading := id } }).value.renderer.engine.metrics.counters.errors =
      1 := by
  have hr : (MarkupRenderer.fresh { throwOnError := true } : MarkupRenderer String).Reachable
      { throwOnError := true } := .new rfl
  have hlive : (LiveRenderer.fresh { throwOnError := true } {} :
      LiveRenderer (Dom.Document String)).Reachable Dom.Document.host { throwOnError := true } :=
    .new rfl
  have hpolicy := (render_followsPolicy hr hlive Program.stubborn (.component (.provider "outer"))
    none { state := 0, clock := { reading := id } }).1
  exact hpolicy.surfaced rfl

end TreeRender
