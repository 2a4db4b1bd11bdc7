import TreeRender.Proofs.Stream.Pull

/-!
# Histories of a renderer

What a renderer of markup can have been through: renders of any trees with any functions, streams
that were pulled any number of times before they were given up, cleared caches and changed
registries, at any times. Its configuration stays, and its cache is valid throughout.
-/

namespace TreeRender

open Markup

variable {F σ : Type}

namespace MarkupStream

/-- What becomes of a stream that is pulled some number of times. -/
inductive Pulled (s : MarkupStream F σ) : MarkupStream F σ → Prop
  | start : Pulled s s
  | pull {t} : Pulled s t → Pulled s t.next.value.2

private theorem Pulled.sound {config : Config} {s t : MarkupStream F σ} (h : s.Pulled t)
    (hs : s.Sound config) : t.Sound config := by
  induction h with
  | start => exact hs
  | pull _ ih => exact ih.next

end MarkupStream

namespace MarkupRenderer

/-- The renderers that can come of one made for `config`. -/
inductive Reachable (config : Config) : MarkupRenderer F → Prop
  | new {r} : (MarkupRenderer.new config).value = .ok r → Reachable config r
  | render {σ : Type} {r} (program : Program F σ) (node : Node F) (world : World σ) :
    Reachable config r → Reachable config (r.render program node world).value.renderer
  | stream {σ : Type} {r} (program : Program F σ) (node : Node F) (world : World σ)
    {s : MarkupStream F σ} : Reachable config r →
      (MarkupStream.new r program node world).Pulled s → Reachable config s.close.1
  | clearCache {r} : Reachable config r →
    Reachable config { r with engine := r.engine.clearCache }
  | changeActions {r} (actions : Registry F) : Reachable config r →
    Reachable config { r with actions }

/-- The configuration that a renderer was made for, and a valid cache. -/
structure Sound (config : Config) (r : MarkupRenderer F) : Prop where
  configured : r.engine.config = config
  cache : r.engine.cache.Valid F config

def fresh (config : Config) : MarkupRenderer F where
  engine := { config, cache := FragmentCache.empty config.cacheSize config.cacheTtl }

theorem value_new (config : Config) :
    (new config).value = config.validate.value.map fun _ => (fresh config : MarkupRenderer F) := by
  simp only [new, Engine.new, Logged.value_bind]
  cases config.validate.value <;> rfl

private theorem sound_new {config : Config} {r : MarkupRenderer F} (h : (new config).value = .ok r)
    :
    r.Sound config := by
  rw [value_new] at h
  cases hvalid : config.validate.value with
  | error e =>
    rw [hvalid] at h
    cases h
  | ok u =>
    rw [hvalid] at h
    cases h
    exact ⟨rfl, FragmentCache.valid_empty _ _⟩

variable {config : Config} {r : MarkupRenderer F}

def walked (r : MarkupRenderer F) (program : Program F σ) (node : Node F) (world : World σ) :
    Except RenderError String × WalkState σ (Registry F) :=
  (walk program r.engine.config (Markup.backend r.engine.config.enableHydration) 1 node).exec
    (r.engine.start world r.actions).2

theorem value_render (program : Program F σ) (node : Node F) (world : World σ) :
    (r.render program node world).value =
      let rendered := r.engine.finish (r.engine.start world r.actions).1
        (r.walked program node world).1 (r.walked program node world).2
      { result := rendered.result.map fun html =>
          if r.engine.config.minify then Markup.minify html else html
        renderer := { engine := r.engine.after rendered, actions := rendered.backend }
        world := rendered.world } := rfl

theorem start_eq (world : World σ) : (r.engine.start world r.actions).2 =
    { state := world.state, clock := (Engine.recordTime r.engine.config world.clock).2,
      cache := r.engine.cache, backend := r.actions } := rfl

theorem Sound.agree (h : r.Sound config) (program : Program F σ) (node : Node F)
    (world : World σ) :
    Walk.Agree (WalkState.Beside config F)
      (fun b u o => o.bottomUp config.enableHydration config.errorFallback r.actions = (u, b))
      (r.walked program node world) (outlining program config node world.state) := by
  unfold walked
  rw [h.configured]
  exact agree_walk (s := (r.engine.start world r.actions).2) h.cache rfl

/-- The outline of the tree tells what a render gives. -/
theorem Sound.result_eq (h : r.Sound config) (program : Program F σ) (node : Node F)
    (world : World σ) : (r.render program node world).value.result =
      (outlining program config node world.state).1.map fun o =>
        let html := (o.bottomUp config.enableHydration config.errorFallback r.actions).1
        if config.minify then Markup.minify html else html := by
  have agree := h.agree program node world
  rw [value_render, h.configured]
  generalize r.walked program node world = p at agree ⊢
  generalize outlining program config node world.state = q at agree ⊢
  cases agree with
  | error _ => rfl
  | ok hmarkup _ =>
    have hhtml := congrArg Prod.fst hmarkup
    simp only [Engine.finish, Except.map, hhtml]

private theorem Sound.render (h : r.Sound config) (program : Program F σ) (node : Node F)
    (world : World σ) : (r.render program node world).value.renderer.Sound config := by
  refine ⟨h.configured, ?_⟩
  change (r.walked program node world).2.cache.Valid F config
  exact (h.agree program node world).beside.cache

private theorem Sound.stream (h : r.Sound config) (program : Program F σ) (node : Node F)
    (world : World σ) : (MarkupStream.new r program node world).Sound config := by
  obtain ⟨rfl, hcache⟩ := h
  have hany : r.engine.config.throwOnError = false → false = true →
      '<' ∉ r.engine.config.errorFallback.toList := fun _ h => nomatch h
  have hplan : (plan program r.engine.config node).Sound r.engine.config false :=
    sound_plan hany node
  exact ⟨rfl, hcache, hplan⟩

/-- The outline of the tree tells which functions fail and in which state all are left. -/
theorem Sound.outlined (h : r.Sound config) (program : Program F σ) (node : Node F)
    (world : World σ) :
    (r.render program node world).value.renderer.engine.metrics.counters.errors =
      (outlining program config node world.state).2.counters.errors ∧
    (r.render program node world).value.world.state =
      (outlining program config node world.state).2.state := by
  have hbeside := (h.agree program node world).beside
  exact ⟨hbeside.errors, hbeside.state⟩

/-- Whatever a renderer went through, its cache is valid. -/
theorem Reachable.sound (h : r.Reachable config) : r.Sound config := by
  induction h with
  | new hnew => exact sound_new hnew
  | render program node world _ ih => exact ih.render program node world
  | stream program node world _ hpulled ih =>
    have hsound := hpulled.sound (ih.stream program node world)
    exact ⟨hsound.configured, hsound.cache⟩
  | clearCache _ ih => exact ⟨ih.configured, FragmentCache.valid_clear⟩
  | changeActions actions _ ih => exact ⟨ih.configured, ih.cache⟩

theorem Reachable.limits (h : r.Reachable config) : config.zeroLimit? = none := by
  induction h with
  | new hnew =>
    rw [value_new, Config.value_validate] at hnew
    cases hzero : config.zeroLimit? with
    | none => rfl
    | some option =>
      rw [hzero] at hnew
      cases hnew
  | render _ _ _ _ ih | stream _ _ _ _ _ ih | clearCache _ ih | changeActions _ _ ih => exact ih

end MarkupRenderer

end TreeRender
