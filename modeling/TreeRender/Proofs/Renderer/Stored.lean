import TreeRender.Proofs.Cache.Bounded
import TreeRender.Proofs.Dom.Parity
import TreeRender.Proofs.Shape.Complexity
import TreeRender.Proofs.Stream.Pulls

/-!
# What a cache stores

Through any history, the cache of a renderer of markup stays within its size, and each of its
entries holds the markup of an element that may be cached, under the signature of this element. No
element that may not be cached shares its signature with one that may, so none of them is found. A
renderer of live nodes stores nothing.
-/

namespace TreeRender

open Markup MarkupStream

variable {F H N σ : Type}

private theorem MarkupStream.Pulled.pulls {s t : MarkupStream F σ} (h : s.Pulled t) :
    ∃ items, s.Pulls items t := by
  induction h with
  | start => exact ⟨[], .start⟩
  | pull _ ih =>
    obtain ⟨items, hitems⟩ := ih
    exact ⟨_, hitems.pull⟩

namespace MarkupRenderer

variable {config : Config} {r : MarkupRenderer F}

private theorem bounded_new (h : (new config).value = .ok r) : r.engine.cache.Bounded config := by
  rw [value_new] at h
  cases hvalid : config.validate.value with
  | error e =>
    rw [hvalid] at h
    cases h
  | ok u =>
    rw [hvalid] at h
    cases h
    exact FragmentCache.bounded_empty

private theorem Reachable.bounded (h : r.Reachable config) : r.engine.cache.Bounded config := by
  induction h with
  | new hnew => exact bounded_new hnew
  | @render σ r program node world _ ih =>
    have hwithin := Backend.stepsWithin_bounded (σ := σ) config
      (Markup.backend (F := F) r.engine.config.enableHydration)
    exact hwithin.closed.walk trivial (r.engine.start world r.actions).2 ih
  | @stream σ r program node world s _ hpulled ih =>
    obtain ⟨items, hpulls⟩ := hpulled.pulls
    have hwithin := Backend.stepsWithin_bounded (σ := σ) config
      (Markup.backend (F := F) r.engine.config.enableHydration)
    exact hpulls.within hwithin rfl ih
  | clearCache _ ih => exact ih.clear
  | changeActions actions _ ih => exact ih

end MarkupRenderer

namespace LiveRenderer

variable {config : Config} {host : Dom.Host F H N} {r : LiveRenderer H}

private theorem cache_render (program : Program F σ) (node : Node F) (container : Option N)
    (world : World σ) : (r.render host program node container world).value.renderer.engine.cache =
      r.engine.cache := by
  have hwithin : (Dom.backend (F := F) host r.engine.config.defaultNamespace).StepsWithin (σ := σ)
      (fun _ => True) fun s t => t.cache = s.cache := Backend.stepsWithin_sameCache rfl
  rw [value_render]
  exact hwithin.closed.walk trivial (r.engine.start world { host := r.host }).2

private theorem Reachable.cache_empty (h : r.Reachable host config) : r.engine.cache.entries = []
    := by
  induction h with
  | @new h r hnew =>
    rw [value_new] at hnew
    cases hvalid : config.validate.value with
    | error e =>
      rw [hvalid] at hnew
      cases hnew
    | ok u =>
      rw [hvalid] at hnew
      cases hnew
      rfl
  | render program node container world _ ih => rw [cache_render, ih]
  | changeHost _ _ ih => exact ih

end LiveRenderer

private theorem Config.isCacheable_eq_of_signature_eq (config : Config) {e e' : Element F (Node F)}
    (h : e.signature = e'.signature) : config.isCacheable e = config.isCacheable e' :=
  config.isCacheable_eq_of_alike (Element.alike_of_signature_eq h)

private theorem FragmentCache.Valid.isCacheable_of_contains {config : Config} {c : FragmentCache}
    (h : c.Valid F config) {e : Element F (Node F)} (hfound : c.contains e.signature = true) :
    config.isCacheable e = true := by
  obtain ⟨entry, hentry, hkey⟩ := contains_eq_true.1 hfound
  obtain ⟨e', hmade⟩ := h entry hentry
  rw [config.isCacheable_eq_of_signature_eq (hkey.symm.trans hmade.key)]
  exact hmade.cacheable

private theorem MarkupRenderer.Sound.result_plain {config : Config} {r : MarkupRenderer F}
    (h : r.Sound config) (hraw : config.minify = false) {e : Element F (Node F)}
    (hfree : e.containsFunction = false) (hfits : e.height ≤ config.maxDepth)
    (program : Program F σ) (world : World σ) :
    (r.render program (.element e) world).value.result = .ok e.plainMarkup := by
  obtain ⟨k, hk⟩ := exec_outlineFrom_functionFree program config (n := .element e) hfree
    (config.levelsAt 1) 1 (outlineStart world.state)
  have houtline : (outlining program config (.element e) world.state).1 = .ok e.outline := by
    rw [outlining, hk]
    exact if_pos hfits
  rw [h.result_eq, houtline, hraw]
  have hstatic : e.outline.Static := Node.static_outline (n := .element e) hfree
  exact congrArg Except.ok (congrArg Prod.fst (hstatic.bottomUp_eq _ _ _))

namespace MarkupRenderer

variable {config config' : Config} {r : MarkupRenderer F} {host : Dom.Host F H N}
  {live : LiveRenderer H}

/-- Whatever a renderer of markup went through, its cache holds at most as many entries as it was
made for, each with what a renderer without a cache gives for the element that it was stored for.
No element with a function or past the complexity limit is found. A renderer of live nodes never
stores anything. -/
theorem cache_stores_markup (hr : r.Reachable config) (hlive : live.Reachable host config') :
    r.engine.cache.size ≤ config.cacheSize ∧ r.engine.cache.keys.Nodup ∧
    (∀ entry ∈ r.engine.cache.entries, ∃ e : Element F (Node F),
      config.isCacheable e = true ∧ entry.key = e.signature ∧
      ∀ {σ : Type} (plain : Config) (r₀ : MarkupRenderer F), r₀.Reachable plain →
        plain.enableCache = false → plain.minify = false → e.height ≤ plain.maxDepth →
        ∀ (program : Program F σ) (world : World σ),
          (r₀.render program (.element e) world).value.result = .ok entry.fragment) ∧
    (∀ e : Element F (Node F),
      e.containsFunction = true ∨ config.cacheComplexityLimit < e.fullComplexity →
        r.engine.cache.contains e.signature = false) ∧
    live.engine.cache.entries = [] := by
  have hbounded := hr.bounded
  have hvalid := hr.sound.cache
  refine ⟨hbounded.size, hbounded.nodup, ?_, ?_, hlive.cache_empty⟩
  · intro entry hentry
    obtain ⟨e, hmade⟩ := hvalid entry hentry
    refine ⟨e, hmade.cacheable, hmade.key, ?_⟩
    intro σ plain r₀ hr₀ _ hraw hfits program world
    have hcacheable := hmade.cacheable
    rw [Config.isCacheable, Bool.and_eq_true_iff] at hcacheable
    have hfree : e.containsFunction = false := by simpa using hcacheable.2
    rw [hr₀.sound.result_plain hraw hfree hfits, hmade.fragment]
  · intro e hexcluded
    rw [Bool.eq_false_iff]
    intro hfound
    have hcacheable := hvalid.isCacheable_of_contains hfound
    simp only [Config.isCacheable, Bool.and_eq_true, decide_eq_true_eq, Bool.not_eq_true']
      at hcacheable
    obtain ⟨⟨-, hlimit⟩, hfree⟩ := hcacheable
    rcases hexcluded with hfunction | hcomplex
    · rw [hfunction] at hfree
      cases hfree
    · have hpast := (e.lt_complexity _).2 hcomplex
      omega

def counted : Element String (Node String) :=
  (Element.new "i").child (.component (.producer "tick"))

theorem cache_stores_markup_once :
    let page : Node String :=
      .collection [.element ((Element.new "b").withText "x"), .element counted]
    let world : World Nat := { state := 0, clock := { reading := id } }
    let r := ((fresh { cacheSize := 1 }).render Program.counting page world).value.renderer
    r.engine.cache.entries.map CacheEntry.fragment = ["<b>x</b>"] ∧
      r.engine.cache.size ≤ 1 ∧ r.engine.cache.contains counted.signature = false := by
  intro page world r
  have hfresh : (fresh { cacheSize := 1 } : MarkupRenderer String).Reachable { cacheSize := 1 } :=
    .new rfl
  have hr : r.Reachable { cacheSize := 1 } := .render Program.counting page world hfresh
  have hlive : (LiveRenderer.fresh {} {} : LiveRenderer (Dom.Document String)).Reachable
      Dom.Document.host {} := .new rfl
  obtain ⟨hsize, -, -, hexcluded, -⟩ := cache_stores_markup hr hlive
  exact ⟨by decide +kernel, hsize, hexcluded counted (.inl rfl)⟩

end MarkupRenderer

end TreeRender
