import TreeRender.Proofs.Dom.Fresh
import TreeRender.Proofs.Metrics.Tally

/-!
# Metrics and output

The metrics of a render account for what it gave. In markup there is an opening tag for each element
that was counted, and more only if fragments were found. The live nodes of a render are as many
elements as were counted, since live nodes are never cached.
-/

namespace TreeRender

open Markup MarkupStream Reading

variable {F σ : Type} {config : Config}

namespace Dom

namespace Document

variable {d d₁ d' : Document F} {first : NodeId} {roots all : List NodeId}

def elementsIn (d : Document F) (ids : List NodeId) : Nat :=
  ids.countP fun id => (d.element? id).isSome

theorem elementsIn_keeps (h : Keeps first d d')
    (hids : ∀ id ∈ all, first ≤ id ∧ id < d.nodes.size) : d'.elementsIn all = d.elementsIn all := by
  apply List.countP_congr
  intro id hid
  obtain ⟨hfirst, hlt⟩ := hids id hid
  have hnode : d.nodes[id]? = some d.nodes[id] := Array.getElem?_eq_getElem hlt
  simp only [element?, hnode, h id _ hfirst hnode]

private theorem elementsIn_text (d : Document F) (content : String) :
    (d.create (.text content)).elementsIn [d.nodes.size] = 0 := by
  simp [elementsIn, element?, getElem?_create]

private theorem Grows.elementsIn_create (h : d.Grows d₁ roots all) (live : LiveElement F) :
    (d₁.create (.element live)).elementsIn (d₁.nodes.size :: all) = d₁.elementsIn all + 1 := by
  have hbelow := elementsIn_keeps (d₁.keeps_create (.element live))
    fun id hid => ⟨Nat.zero_le id, ((h.mem_iff id).1 hid).2⟩
  have hnew : ((d₁.create (.element live)).element? d₁.nodes.size).isSome = true := by
    simp only [element?, getElem?_create, Option.isSome_some]
  rw [← hbelow]
  exact List.countP_cons_of_pos hnew

end Document

/-- The trees of the nodes `ids` were made on the way from `s` to `t`, and their elements were
counted. -/
def Counted (s t : WalkState σ (HostState (Document F))) (ids : List NodeId) : Prop :=
  ∃ all, s.backend.host.Grows t.backend.host ids all ∧
    t.counters.elements = s.counters.elements + t.backend.host.elementsIn all ∧
    t.counters.hits = s.counters.hits ∧ t.counters.misses = s.counters.misses

namespace Counted

variable {s t u : WalkState σ (HostState (Document F))} {ids ids' : List NodeId}

theorem nil (hhost : t.backend.host = s.backend.host)
    (helements : t.counters.elements = s.counters.elements)
    (hhits : t.counters.hits = s.counters.hits) (hmisses : t.counters.misses = s.counters.misses) :
    Counted s t [] :=
  ⟨[], hhost ▸ .nil _, helements, hhits, hmisses⟩

theorem append (h : Counted s t ids) (h' : Counted t u ids') : Counted s u (ids ++ ids') := by
  obtain ⟨all, hgrows, helements, hhits, hmisses⟩ := h
  obtain ⟨all', hgrows', helements', hhits', hmisses'⟩ := h'
  have hkept := Document.elementsIn_keeps hgrows'.keeps
    fun id hid => ⟨Nat.zero_le id, ((hgrows.mem_iff id).1 hid).2⟩
  refine ⟨all ++ all', hgrows.append hgrows', ?_, hhits'.trans hhits, hmisses'.trans hmisses⟩
  have hboth : u.backend.host.elementsIn (all ++ all') =
      u.backend.host.elementsIn all + u.backend.host.elementsIn all' := List.countP_append
  rw [helements', helements, hboth, hkept, Nat.add_assoc]

private theorem text (content : String)
    (hhost : t.backend.host = s.backend.host.create (.text content))
    (hcounters : t.counters = s.counters) : Counted s t [s.backend.host.nodes.size] := by
  have hgrows := (Document.Grows.nil s.backend.host).create
    (s.backend.host.children_create_text content)
  have hnone := s.backend.host.elementsIn_text content
  rw [← hhost] at hgrows hnone
  refine ⟨_, hgrows, ?_, congrArg _ hcounters, congrArg _ hcounters⟩
  rw [hnone, hcounters, Nat.add_zero]

private theorem element {s₀ : WalkState σ (HostState (Document F))} {live : LiveElement F}
    (h : Counted s t live.children) (hstart : s.backend.host = s₀.backend.host)
    (hcounted : s.counters = s₀.toScene.countElement.counters)
    (hhost : u.backend.host = t.backend.host.create (.element live))
    (hcounters : u.counters = t.counters) : Counted s₀ u [t.backend.host.nodes.size] := by
  obtain ⟨all, hgrows, helements, hhits, hmisses⟩ := h
  have hgrown := hgrows.create (t.backend.host.children_create_element live)
  have hnew := hgrows.elementsIn_create live
  rw [← hhost] at hgrown hnew
  rw [hstart] at hgrown
  refine ⟨_, hgrown, ?_, ?_, ?_⟩
  · rw [hnew, hcounters, helements, hcounted]
    exact Nat.add_right_comm _ _ _
  · rw [hcounters, hhits, hcounted]
    rfl
  · rw [hcounters, hmisses, hcounted]
    rfl

end Counted

private theorem makes_counted (default : Option String) (fallback : String) :
    (backend Document.host default : Backend F (HostState (Document F)) (List NodeId)).Makes (σ := σ)
      fallback (fun _ _ => True) fun s t us => Counted s t us.flatten where
  stop _ := trivial
  error _ _ := trivial
  nil _ := .nil rfl rfl rfl rfl
  append h h' := by
    rw [List.flatten_append]
    exact h.append h'
  calls hx s := by
    obtain ⟨helements, hhits, hmisses⟩ := hx.keeps_counts s.toScene
    exact .nil rfl helements hhits hmisses
  empty _ := .nil rfl rfl rfl rfl
  text text s := Counted.text text rfl rfl
  fallback s := by
    change Counted s _ [(fallbackNodes Document.host fallback s.backend.host).value.1].flatten
    unfold fallbackNodes
    cases fallback.isEmpty with
    | true => exact .nil rfl rfl rfl rfl
    | false => exact Counted.text fallback rfl rfl
  fragment {s t us} h := by
    rw [← List.append_nil us.flatten] at h
    exact h
  enter _ _ := trivial
  element {s t us} e hvalid _ h := by
    obtain ⟨all, hgrows, hcounts⟩ := h
    have hmade (ns : Option String) :=
      Document.value_assemble hvalid t.backend.host ns hgrows.roots_lt
    change Counted s _ [(assemble Document.host _ e us.flatten t.backend.host).value.1].flatten
    rw [hmade]
    exact Counted.element ⟨all, hgrows, hcounts⟩ rfl rfl
      (congrArg Prod.snd (hmade _)) rfl

end Dom

/-- The counts account for markup: as many elements as there are opening tags, or less if fragments
were found, and at most one look-up for each of them. -/
def Counters.AccountFor (c : Counters) (html : String) : Prop :=
  ∃ tokens, Splits html.toList tokens ∧ (∀ tokens', Splits html.toList tokens' → tokens' = tokens) ∧
    c.elements ≤ openings tokens ∧ (c.hits = 0 → c.elements = openings tokens) ∧
    c.hits + c.misses ≤ c.elements

private theorem Counters.Tally.accountFor {c : Counters} {html : String} {n : Nat}
    (h : Tally {} c n) (hopens : Opens html n) : c.AccountFor html := by
  obtain ⟨tokens, hsplits, rfl⟩ := hopens.splits
  have hle : c.elements ≤ openings tokens := by simpa using h.elements_le
  have heq (hhits : c.hits = 0) : c.elements = openings tokens := by simpa using h.elements_eq hhits
  have hlookups : c.hits + c.misses ≤ c.elements := by simpa using h.lookups_le
  exact ⟨tokens, hsplits, fun _ h' => h'.unique hsplits, hle, heq, hlookups⟩

private theorem eq_ok_of_plain (hraw : config.minify = false) {result : Except RenderError String}
    {html : String}
    (h : result.map (fun html => if config.minify then Markup.minify html else html) = .ok html) :
    result = .ok html := by
  rw [hraw] at h
  cases result with
  | error e => cases h
  | ok written => exact h

private theorem eq_ok_of_toOption {α : Type} {result : Except RenderError α} {a : α}
    (h : result.toOption = some a) : result = .ok a := by
  cases result with
  | error e => cases h
  | ok b => exact congrArg Except.ok (Option.some.inj h)

private theorem Walk.Makes.accountFor {x : Walk σ (Registry F) String}
    {s : WalkState σ (Registry F)}
    (h : Walk.Makes (fun _ _ => True) Tallied s x) (hcache : s.cache.Valid F config)
    (hstart : s.counters = {}) {html : String} (hhtml : (x.exec s).1 = .ok html) :
    (x.exec s).2.counters.AccountFor html := by
  unfold Walk.Makes at h
  generalize x.exec s = p at h hhtml ⊢
  obtain ⟨result, t⟩ := p
  obtain rfl : result = .ok html := hhtml
  obtain ⟨-, n, hn, htally⟩ := h hcache.opening
  rw [join_singleton] at hn
  rw [hstart] at htally
  exact htally.accountFor hn

namespace LiveRenderer

private theorem counted_render (r : LiveRenderer (Dom.Document F)) (program : Program F σ)
    (node : Node F)
    {container : Option Dom.NodeId}
    (hcontainer : ∀ id, container = some id → id < r.host.nodes.size) (world : World σ)
    {roots : List Dom.NodeId} :
    let out := (r.render Dom.Document.host program node container world).value
    let counters := out.renderer.engine.metrics.counters
    out.result = .ok roots → ∃ all, out.renderer.host.Spans roots all ∧ all.Nodup ∧
      counters.elements = out.renderer.host.elementsIn all ∧ counters.hits = 0 ∧
      counters.misses = 0 := by
  have made := r.ends_walked (Dom.makes_counted _ _) program node world
  simp only [value_render]
  generalize r.walked Dom.Document.host program node world = p at made ⊢
  obtain ⟨_ | roots', t⟩ := p
  · nofun
  · rintro ⟨⟩
    have hcounted : Dom.Counted _ t (roots ++ []) := made
    rw [List.append_nil] at hcounted
    obtain ⟨all, hgrows, helements, hhits, hmisses⟩ := hcounted
    have hnew (id : Dom.NodeId) (hid : id ∈ all) := (hgrows.mem_iff id).1 hid
    have hmounted := Dom.Document.keeps_mount hcontainer r.engine.config.enableHydration roots
      t.backend.host
    have hkept := Dom.Document.elementsIn_keeps hmounted hnew
    exact ⟨all, hgrows.spans.keeps hmounted fun id hid => (hnew id hid).1, hgrows.nodup,
      (helements.trans (Nat.zero_add _)).trans hkept.symm, hhits, hmisses⟩

end LiveRenderer

/-- The metrics account for the output. After a render to markup and after a drained stream there is
an opening tag for each element that was counted, and the other way round unless fragments were
found; after a render to live nodes the elements that were counted are those in the new trees. -/
theorem metrics_account_for_output {m : MarkupRenderer F} (hm : m.Reachable config)
    (hfallback : '<' ∉ config.errorFallback.toList) (hraw : config.minify = false)
    (hencoding : config.encoding = .utf8) (program : Program F σ) (node : Node F) (world : World σ)
    (r : LiveRenderer (Dom.Document F)) (container : Option Dom.NodeId)
    (hcontainer : ∀ id, container = some id → id < r.host.nodes.size) :
    (∀ html, (m.render program node world).value.result = .ok html →
      (m.render program node world).value.renderer.engine.metrics.counters.AccountFor html) ∧
    (∃ items last, Drains (MarkupStream.new m program node world).next.value items last ∧
      ∀ html, Delivers items (.ok html) → last.engine.metrics.counters.AccountFor html) ∧
    let out := (r.render Dom.Document.host program node container world).value
    let counters := out.renderer.engine.metrics.counters
    ∀ roots, out.result = .ok roots → ∃ all, out.renderer.host.Spans roots all ∧ all.Nodup ∧
      counters.elements = out.renderer.host.elementsIn all ∧ counters.hits = 0 ∧
      counters.misses = 0 := by
  have hsound := hm.sound
  obtain ⟨rfl, hcache⟩ := hsound
  refine ⟨fun html hhtml => ?_, ?_, fun roots => r.counted_render program node hcontainer world⟩
  · have makes := Markup.tallied_walkFrom program hfallback (m.engine.config.levelsAt 1) 1 node
      (m.engine.start world m.actions).2 m.engine.config.enableHydration
    exact makes.accountFor hcache rfl (eq_ok_of_plain hraw hhtml)
  · obtain ⟨items, last, hdrains, hends⟩ := hm.sound.drains (fun _ => hfallback) program node world
    have makes := Markup.tallied_streamed program hfallback (m.engine.config.levelsAt 1) 1 node
      (m.engine.start world m.actions).2
    have hdelivers := hends.delivers hencoding rfl rfl
    refine ⟨items, last, hdrains, fun html hhtml => ?_⟩
    rw [hends.engine]
    exact makes.accountFor hcache rfl (eq_ok_of_plain hraw (hdelivers.unique hhtml))

/-- An element that can be cached beside one that cannot. -/
def halfCached : Node String :=
  .collection [.element ((Element.new "p").child (.element (Element.new "b"))),
    .element ((Element.new "i").child (.component (.producer "tick")))]

/-- The second page takes one of its two elements from the cache, and has three opening tags. -/
theorem metrics_account_for_output_halfCached :
    let world : World Nat := { state := 7, clock := { reading := id } }
    let first := ((MarkupRenderer.fresh {}).render Program.counting halfCached world).value
    let page := (first.renderer.render Program.counting halfCached first.world).value
    let live := ((LiveRenderer.fresh {} {}).render Dom.Document.host Program.counting halfCached none
      first.world).value
    (page.result.toOption = some "<p><b></b></p><i>8</i>" ∧
      page.renderer.engine.metrics.counters = { elements := 2, hits := 1 } ∧
      page.renderer.engine.metrics.counters.AccountFor "<p><b></b></p><i>8</i>") ∧
    ∃ all, live.renderer.host.Spans [1, 3] all ∧ live.renderer.host.elementsIn all = 3 := by
  intro world first page live
  have hfresh : (MarkupRenderer.fresh {} : MarkupRenderer String).Reachable {} := .new rfl
  have hm : first.renderer.Reachable {} := .render Program.counting halfCached world hfresh
  have hfallback : '<' ∉ ({} : Config).errorFallback.toList := by decide
  obtain ⟨hpage, -, hlive⟩ := metrics_account_for_output hm hfallback rfl rfl Program.counting
    halfCached first.world (LiveRenderer.fresh {} {}) none nofun
  have hhtml : page.result.toOption = some "<p><b></b></p><i>8</i>" := by decide +kernel
  have hroots : live.result.toOption = some [1, 3] := by decide +kernel
  have hthree : live.renderer.engine.metrics.counters.elements = 3 := by decide +kernel
  refine ⟨⟨hhtml, by decide +kernel, hpage _ (eq_ok_of_toOption hhtml)⟩, ?_⟩
  obtain ⟨all, hspans, -, helements, -⟩ := hlive [1, 3] (eq_ok_of_toOption hroots)
  subst live
  exact ⟨all, hspans, helements.symm.trans hthree⟩

end TreeRender
