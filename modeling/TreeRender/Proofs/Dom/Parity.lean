import TreeRender.Proofs.Calls
import TreeRender.Proofs.Dom.Html
import TreeRender.Proofs.Renderer.Streaming

/-!
# Live nodes beside markup

Rendering a tree to live nodes and rendering it to markup call the same functions and fail alike,
and what they make shows the same outline. So the live nodes are written as the markup is, where
markup has its fallback escaped as the text of a live node is.
-/

namespace TreeRender

open Markup

variable {F H N σ β : Type}

/-- The configuration under which markup shows the fallback as text. -/
def Config.escapedFallback (config : Config) : Config :=
  { config with errorFallback := escape config.errorFallback }

private theorem Config.evaluatesLike_escapedFallback {program : Program F σ} {config : Config}
    (hprovide : ∀ name depth s,
      program.provide name depth config s = program.provide name depth config.escapedFallback s) :
    config.EvaluatesLike program config.escapedFallback :=
  ⟨rfl, rfl, hprovide⟩

namespace LiveRenderer

/-- The renderers that can come of one made for `config`. The host may change between renders. -/
inductive Reachable (host : Dom.Host F H N) (config : Config) : LiveRenderer H → Prop
  | new {h r} : (LiveRenderer.new config h).value = .ok r → Reachable host config r
  | render {σ : Type} {r} (program : Program F σ) (node : Node F) (container : Option N)
    (world : World σ) : Reachable host config r →
      Reachable host config (r.render host program node container world).value.renderer
  | changeHost {r} (h : H) : Reachable host config r → Reachable host config { r with host := h }

/-- The configuration that a renderer was made for, and a valid cache. -/
structure Sound (F : Type) (config : Config) (r : LiveRenderer H) : Prop where
  configured : r.engine.config = config
  cache : r.engine.cache.Valid F config

def fresh (config : Config) (host : H) : LiveRenderer H where
  engine := { config, cache := FragmentCache.empty config.cacheSize config.cacheTtl }
  host

theorem value_new (config : Config) (host : H) :
    (new config host).value = config.validate.value.map fun _ => fresh config host := by
  simp only [new, Engine.new, Logged.value_bind]
  cases config.validate.value <;> rfl

private theorem sound_new {config : Config} {h : H} {r : LiveRenderer H}
    (hnew : (new config h).value = .ok r) : r.Sound F config := by
  rw [value_new] at hnew
  cases hvalid : config.validate.value with
  | error e =>
    rw [hvalid] at hnew
    cases hnew
  | ok u =>
    rw [hvalid] at hnew
    cases hnew
    exact ⟨rfl, FragmentCache.valid_empty _ _⟩

variable {config : Config} {r : LiveRenderer H} {host : Dom.Host F H N}

def walked (r : LiveRenderer H) (host : Dom.Host F H N) (program : Program F σ) (node : Node F)
    (world : World σ) : Except RenderError (List N) × WalkState σ (Dom.HostState H) :=
  (walk program r.engine.config (Dom.backend host r.engine.config.defaultNamespace) 1 node).exec
    (r.engine.start world { host := r.host }).2

theorem value_render (program : Program F σ) (node : Node F) (container : Option N)
    (world : World σ) : (r.render host program node container world).value =
      let rendered := r.engine.finish (r.engine.start world ({ host := r.host } : Dom.HostState H)).1
        (r.walked host program node world).1 (r.walked host program node world).2
      { result := rendered.result
        renderer :=
          { engine := r.engine.after rendered
            host := match rendered.result with
              | .error _ => rendered.backend.host
              | .ok nodes => (Dom.mount host r.engine.config.enableHydration container nodes
                  rendered.backend.host).value.2 }
        world := rendered.world } := by
  have hrendered : (r.engine.render program (Dom.backend host r.engine.config.defaultNamespace)
      node world ({ host := r.host } : Dom.HostState H)).value =
        r.engine.finish (r.engine.start world ({ host := r.host } : Dom.HostState H)).1
          (r.walked host program node world).1 (r.walked host program node world).2 := rfl
  unfold render
  rw [Logged.value_bind, hrendered]
  generalize r.walked host program node world = p
  obtain ⟨result, s⟩ := p
  cases result <;> rfl

theorem Sound.agree {R : Dom.HostState H → Dom.HostState H → List N → Outline F → Prop}
    (h : r.Sound F config)
    (hrealizes : (Dom.backend host config.defaultNamespace).Realizes config.errorFallback R)
    (program : Program F σ) (node : Node F) (world : World σ) :
    Walk.Agree (WalkState.Beside config F) (R { host := r.host })
      (r.walked host program node world) (outlining program config node world.state) := by
  obtain ⟨rfl, hcache⟩ := h
  exact hrealizes.tracks (Nat.add_comm _ _) node { host := r.host }
    (r.engine.start world { host := r.host }).2 (outlineStart world.state) rfl
    ⟨rfl, rfl, rfl, rfl, hcache⟩

theorem realizes_any (host : Dom.Host F H N) (default : Option String) (fallback : String) :
    (Dom.backend host default).Realizes fallback (fun _ _ _ _ => True) where
  empty _ := trivial
  text _ _ := trivial
  fallback _ := trivial
  fragment _ := trivial
  element _ _ _ _ := trivial
  restore h := nomatch h
  store h := nomatch h

private theorem Sound.render (h : r.Sound F config) (program : Program F σ) (node : Node F)
    (container : Option N) (world : World σ) :
    (r.render host program node container world).value.renderer.Sound F config := by
  rw [value_render]
  exact ⟨h.configured, (h.agree (realizes_any _ _ _) program node world).beside.cache⟩

/-- The outline of the tree tells which functions fail and in which state all are left. -/
theorem Sound.outlined (h : r.Sound F config) (host : Dom.Host F H N) (program : Program F σ)
    (node : Node F) (container : Option N) (world : World σ) :
    (r.render host program node container world).value.renderer.engine.metrics.counters.errors =
      (outlining program config node world.state).2.counters.errors ∧
    (r.render host program node container world).value.world.state =
      (outlining program config node world.state).2.state := by
  have hbeside := (h.agree (realizes_any host _ _) program node world).beside
  rw [value_render]
  exact ⟨hbeside.errors, hbeside.state⟩

/-- Whatever a renderer went through, its cache is valid. -/
theorem Reachable.sound (h : r.Reachable host config) : r.Sound F config := by
  induction h with
  | new hnew => exact sound_new hnew
  | render program node container world _ ih => exact ih.render program node container world
  | changeHost _ _ ih => exact ⟨ih.configured, ih.cache⟩

end LiveRenderer

namespace LiveRenderer

variable {config : Config} {r : LiveRenderer (Dom.Document F)} {m : MarkupRenderer F}

theorem Sound.mirrors (h : r.Sound F config) (program : Program F σ) (node : Node F)
    {container : Option Dom.NodeId}
    (hcontainer : ∀ id, container = some id → id < r.host.nodes.size) (world : World σ) :
    match (outlining program config node world.state).1 with
    | .error e =>
      (r.render Dom.Document.host program node container world).value.result = .error e
    | .ok o => ∃ ids,
      (r.render Dom.Document.host program node container world).value.result = .ok ids ∧
      (r.render Dom.Document.host program node container world).value.renderer.host.Mirrors
        config.errorFallback r.host.nodes.size ids o := by
  have hrealizes := Dom.realizes (F := F) config.errorFallback config.defaultNamespace
  have agree := h.agree hrealizes program node world
  rw [value_render]
  generalize r.walked Dom.Document.host program node world = p at agree ⊢
  generalize outlining program config node world.state = q at agree ⊢
  cases agree with
  | error _ => rfl
  | ok hmade _ =>
    obtain ⟨hkeeps, hmirrors⟩ := hmade
    exact ⟨_, rfl, hmirrors.keeps (Dom.Document.keeps_mount hcontainer _ _ _)⟩

end LiveRenderer

theorem MarkupRenderer.Sound.dry_result {config : Config} {m : MarkupRenderer F}
    (h : m.Sound config) (hdry : config.enableHydration = false) (hraw : config.minify = false)
    (program : Program F σ) (node : Node F) (world : World σ) :
    (m.render program node world).value.result =
      (outlining program config node world.state).1.map (·.markup config.errorFallback) := by
  have agree := h.agree program node world
  rw [hdry] at agree
  rw [value_render, h.configured, hraw]
  generalize m.walked program node world = p at agree ⊢
  generalize outlining program config node world.state = q at agree ⊢
  cases agree with
  | error _ => rfl
  | ok hmarkup _ =>
    rw [Outline.bottomUp_dry] at hmarkup
    exact congrArg Except.ok (congrArg Prod.fst hmarkup).symm

namespace LiveRenderer

variable {config : Config} {r : LiveRenderer (Dom.Document F)} {m : MarkupRenderer F}

/-- Rendering a tree to live nodes and to markup fails alike. If it succeeds, the live nodes mirror
the outline of the tree, listeners included, and are written as the markup. Either way both count
the same failed functions and call the same functions in the same order. -/
theorem outerHtml_eq_render (hr : r.Reachable Dom.Document.host config)
    (hm : m.Reachable config.escapedFallback) (hdry : config.enableHydration = false)
    (hraw : config.minify = false) (program : Program F σ)
    (hprovide : ∀ name depth s,
      program.provide name depth config s = program.provide name depth config.escapedFallback s)
    (node : Node F) (container : Option Dom.NodeId)
    (hcontainer : ∀ id, container = some id → id < r.host.nodes.size) (world world' : World σ)
    (hstate : world.state = world'.state)
    (hclass : ∀ o, (outlining program config node world.state).1 = .ok o → o.doublesClass = false) :
    let live := (r.render Dom.Document.host program node container world).value
    let text := (m.render program node world').value
    ((∃ e, live.result = .error e ∧ text.result = .error e) ∨
      ∃ ids o, (outlining program config node world.state).1 = .ok o ∧ live.result = .ok ids ∧
        live.renderer.host.Mirrors config.errorFallback r.host.nodes.size ids o ∧
        text.result = .ok (String.join (ids.map live.renderer.host.outerHtml))) ∧
    live.renderer.engine.metrics.counters.errors = text.renderer.engine.metrics.counters.errors ∧
    (r.render Dom.Document.host program.recorded node container
        world.recorded).value.world.state.2 =
      (m.render program.recorded node world'.recorded).value.world.state.2 := by
  intro live text
  have hsound : r.Sound F config := hr.sound
  have hsound' := hm.sound
  have hlike := Config.evaluatesLike_escapedFallback hprovide
  have houtline : outlining program config.escapedFallback node world'.state =
      outlining program config node world.state := by
    rw [← hstate, outlining_congr hlike]
  refine ⟨?_, ?_, ?_⟩
  · have hlive := hsound.mirrors program node hcontainer world
    have htext : text.result = _ := hsound'.dry_result hdry hraw program node world'
    rw [houtline] at htext
    cases hresult : (outlining program config node world.state).1 with
    | error e =>
      rw [hresult] at hlive htext
      exact .inl ⟨e, hlive, htext⟩
    | ok o =>
      rw [hresult] at hlive htext
      obtain ⟨ids, hids, hmirrors⟩ := hlive
      refine .inr ⟨ids, o, rfl, hids, hmirrors, htext.trans (congrArg Except.ok ?_)⟩
      exact (hmirrors.html_eq (hclass o hresult) hmirrors.lt_size).symm
  · have hlive := (hsound.outlined Dom.Document.host program node container world).1
    have htext := (hsound'.outlined program node world').1
    rw [houtline] at htext
    exact hlive.trans htext.symm
  · have hrecorded : (world'.recorded : World (Recorded F σ)).state = world.recorded.state :=
      congrArg (·, []) hstate.symm
    have hlive :=
      (hsound.outlined Dom.Document.host program.recorded node container world.recorded).2
    have htext := (hsound'.outlined program.recorded node world'.recorded).2
    rw [hrecorded, ← outlining_congr hlike.recorded] at htext
    exact congrArg Prod.snd (hlive.trans htext.symm)

/-- An element with a class, a handler and a child that a function gives. -/
def countingButton : Node String :=
  .element ((((Element.new "button").className "big").on "click" "save").child
    (.component (.producer "tick")))

theorem outerHtml_counting :
    ∃ live ids, live = ((fresh { errorFallback := "<failed>" }
        ({ nodes := #[.element { tag := "main" }] } : Dom.Document String)).render
          Dom.Document.host Program.counting countingButton (some 0)
          { state := 0, clock := { reading := id } }).value ∧
      live.result = .ok ids ∧ String.join (ids.map live.renderer.host.outerHtml) =
        "<button class=\"big\">0</button>" := by
  have hr : (fresh { errorFallback := "<failed>" }
      ({ nodes := #[.element { tag := "main" }] } : Dom.Document String)).Reachable
      Dom.Document.host { errorFallback := "<failed>" } := .new rfl
  have hm : (MarkupRenderer.fresh ({ errorFallback := "<failed>" } : Config).escapedFallback :
      MarkupRenderer String).Reachable ({ errorFallback := "<failed>" } : Config).escapedFallback :=
    .new rfl
  have hcontainer (id : Dom.NodeId) (h : some 0 = some id) : id < 1 := by
    cases h
    decide
  have hdoubles : (outlining Program.counting { errorFallback := "<failed>" } countingButton
      0).1.toOption.any Outline.doublesClass = false := by decide +kernel
  have hclass (o : Outline String) (h : (outlining Program.counting { errorFallback := "<failed>" }
      countingButton 0).1 = .ok o) : o.doublesClass = false := by
    rw [h] at hdoubles
    exact hdoubles
  have hparity := outerHtml_eq_render hr hm rfl rfl Program.counting (fun _ _ _ => rfl)
    countingButton (some 0) hcontainer { state := 0, clock := { reading := id } }
    { state := 0, clock := { reading := id } } rfl hclass
  have hmarkup : ((MarkupRenderer.fresh ({ errorFallback := "<failed>" } : Config).escapedFallback :
      MarkupRenderer String).render Program.counting countingButton
      { state := 0, clock := { reading := id } }).value.result.toOption =
        some "<button class=\"big\">0</button>" := by decide +kernel
  rcases hparity.1 with ⟨e, -, hfailed⟩ | ⟨ids, -, -, hids, -, htext⟩
  · rw [hfailed] at hmarkup
    cases hmarkup
  · rw [htext] at hmarkup
    simp only [Except.toOption, Option.some.injEq] at hmarkup
    exact ⟨_, ids, rfl, hids, hmarkup⟩

end LiveRenderer

end TreeRender
