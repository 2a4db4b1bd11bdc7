import TreeRender.Proofs.Cache.Ageless
import TreeRender.Proofs.Calls
import TreeRender.Proofs.Renderer.History
import TreeRender.Proofs.Stream.Dry

/-!
# Streams beside renders

What a drained stream comes to, beside a render of the same tree by the same renderer with the
functions in the same state. The two may run at different times.
-/

namespace TreeRender

open Markup

variable {F σ : Type}

private theorem Walk.Agree.result_eq {τ β U : Type} {c c' : Config} {f : Outline F → U × β}
    {p : Except RenderError U × WalkState σ β} {p' : Except RenderError U × WalkState τ β}
    {q : Except RenderError (Outline F) × WalkState σ Unit}
    {q' : Except RenderError (Outline F) × WalkState τ Unit}
    (h : Agree (WalkState.Beside c F) (fun b u o => f o = (u, b)) p q)
    (h' : Agree (WalkState.Beside c' F) (fun b u o => f o = (u, b)) p' q') (hsame : q.1 = q'.1) :
    p.1 = p'.1 := by
  cases h with
  | ok hu _ =>
    cases h' with
    | ok hu' _ =>
      cases hsame
      obtain ⟨rfl, -⟩ := Prod.mk.inj (hu.symm.trans hu')
      rfl
    | error _ => cases hsame
  | error _ =>
    cases h' with
    | ok _ _ => cases hsame
    | error _ =>
      cases hsame
      rfl

theorem Walk.Agree.same {β U : Type} {c c' : Config} {f : Outline F → U × β}
    {p p' : Except RenderError U × WalkState σ β}
    {q : Except RenderError (Outline F) × WalkState σ Unit}
    (h : Agree (WalkState.Beside c F) (fun b u o => f o = (u, b)) p q)
    (h' : Agree (WalkState.Beside c' F) (fun b u o => f o = (u, b)) p' q) :
    p.1 = p'.1 ∧ p.2.state = p'.2.state :=
  ⟨h.result_eq h' rfl, h.beside.state.trans h'.beside.state.symm⟩

def World.recorded (world : World σ) : World (Recorded F σ) :=
  { state := (world.state, []), clock := world.clock }

namespace MarkupStream

/-- The items of a drain that amounts to a result: chunks that join to the markup, or chunks and
then the error. -/
def Delivers (items : List Item) (result : Except RenderError String) : Prop :=
  ∃ chunks, match result with
    | .ok html => items = chunks.map .ok ∧ String.join chunks = html
    | .error e => items = chunks.map .ok ++ [.error e]

private theorem map_ok_inj {chunks chunks' : List String}
    (h : chunks.map (Except.ok : String → Item) = chunks'.map .ok) : chunks = chunks' :=
  (List.map_inj_right fun _ _ heq => Except.ok.inj heq).1 h

private theorem map_ok_ne_error {chunks chunks' : List String} {e : RenderError} :
    chunks.map (Except.ok : String → Item) ≠ chunks'.map .ok ++ [.error e] := by
  intro h
  have hmem : (.error e : Item) ∈ chunks.map (Except.ok : String → Item) := by
    rw [h]
    exact List.mem_append_right _ (List.mem_singleton.2 rfl)
  obtain ⟨_, _, hok⟩ := List.mem_map.1 hmem
  cases hok

theorem Delivers.unique {items : List Item} {result result' : Except RenderError String}
    (h : Delivers items result) (h' : Delivers items result') : result = result' := by
  obtain ⟨chunks, h⟩ := h
  obtain ⟨chunks', h'⟩ := h'
  cases result with
  | ok html =>
    cases result' with
    | ok html' =>
      obtain ⟨rfl, rfl⟩ := h
      obtain ⟨hitems, rfl⟩ := h'
      rw [map_ok_inj hitems]
    | error e =>
      obtain ⟨rfl, -⟩ := h
      exact (map_ok_ne_error h').elim
  | error e =>
    cases result' with
    | ok html' =>
      obtain ⟨rfl, -⟩ := h'
      exact (map_ok_ne_error h).elim
    | error e' =>
      have hlast : items.getLast? = some (.error e) := by
        rw [h]
        exact List.getLast?_concat
      rw [h', List.getLast?_concat] at hlast
      cases hlast
      rfl

variable {config : Config}

private theorem chunkItems_utf8 (h : config.encoding = .utf8) (texts : List String) :
    chunkItems config texts = texts.map .ok := by
  unfold chunkItems
  rw [h]
  rfl

private theorem minified_all (minify : Bool) (html : String) :
    (minified (if minify then some {} else none) true html).1 =
      if minify then Markup.minify html else html := by
  cases minify <;> rfl

/-- The chunks that a stream gives are cut from what draining its plan gives, minified as a whole,
and then encoded each on its own. -/
theorem EndsWith.chunked {s : MarkupStream F σ} (hbuffer : s.buffer = "")
    (hminifier : s.minifier = if config.minify then some {} else none)
    {ends : Except RenderError String × WalkState σ (Registry F)} {items : List Item}
    {last : MarkupStream F σ} (h : s.EndsWith config ends items last) : ∃ texts,
      match ends.1.map fun html => if config.minify then Markup.minify html else html with
      | .ok html => items = chunkItems config texts ∧ String.join texts = html
      | .error e => items = chunkItems config texts ++ [.error e] := by
  obtain ⟨texts, htexts⟩ := h.items
  refine ⟨texts, ?_⟩
  obtain ⟨result, walk⟩ := ends
  cases result with
  | ok html =>
    obtain ⟨hitems, hjoin⟩ := htexts
    rw [hbuffer, String.empty_append, hminifier, minified_all] at hjoin
    exact ⟨hitems, hjoin⟩
  | error e => exact htexts

theorem EndsWith.delivers {s : MarkupStream F σ} (hencoding : config.encoding = .utf8)
    (hbuffer : s.buffer = "") (hminifier : s.minifier = if config.minify then some {} else none)
    {ends : Except RenderError String × WalkState σ (Registry F)} {items : List Item}
    {last : MarkupStream F σ} (h : s.EndsWith config ends items last) :
    Delivers items (ends.1.map fun html => if config.minify then Markup.minify html else html) := by
  obtain ⟨texts, htexts⟩ := h.chunked hbuffer hminifier
  rw [chunkItems_utf8 hencoding] at htexts
  refine ⟨texts, ?_⟩
  obtain ⟨_ | _, _⟩ := ends <;> exact htexts

section

variable {s : MarkupStream F σ} {ends : Except RenderError String × WalkState σ (Registry F)}
  {items : List Item} {last : MarkupStream F σ} (h : s.EndsWith config ends items last)

include h

theorem EndsWith.state_close : last.close.2.state = ends.2.state := by
  rw [close, h.walk]

private theorem EndsWith.cache_close : last.close.1.engine.cache = ends.2.cache := by
  rw [close, h.walk]

private theorem EndsWith.counters_close : last.close.1.engine.metrics.counters = ends.2.counters
    := by
  rw [close, h.engine]
  rfl

end

end MarkupStream

namespace MarkupRenderer

open MarkupStream

variable {config : Config} {r : MarkupRenderer F}

/-- How streaming a tree ends when the stream is drained. -/
def streamed (r : MarkupRenderer F) (program : Program F σ) (node : Node F) (world : World σ) :
    Except RenderError String × WalkState σ (Registry F) :=
  ((Markup.streamed program r.engine.config).visit program r.engine.config
    (r.engine.config.levelsAt 1) 1 node).exec (r.engine.start world r.actions).2

/-- Streaming the tree is smooth: everything that is written is fit for the minifier. -/
def Smooth (r : MarkupRenderer F) (program : Program F σ) (node : Node F) (world : World σ) : Prop :=
  (plan program r.engine.config node).Smooth r.engine.config r.engine.config.minify
    (r.engine.start world r.actions).2

theorem Sound.smooth (h : r.Sound config)
    (hfallback : config.throwOnError = false → config.minify = true →
      '<' ∉ config.errorFallback.toList)
    (program : Program F σ) (node : Node F) (world : World σ) : r.Smooth program node world := by
  obtain ⟨rfl, hcache⟩ := h
  have hplan : (plan program r.engine.config node).Sound r.engine.config r.engine.config.minify :=
    sound_plan hfallback node
  exact hplan.smooth hfallback hcache

private theorem Sound.drains_of_smooth (h : r.Sound config) {program : Program F σ} {node : Node F}
    {world : World σ} (hsmooth : r.Smooth program node world) :
    ∃ items last, Drains (MarkupStream.new r program node world).next.value items last ∧
      EndsWith config (MarkupStream.new r program node world) (r.streamed program node world)
        items last := by
  obtain ⟨rfl, -⟩ := h
  have hready : (MarkupStream.new r program node world).Ready r.engine.config := by
    refine ⟨rfl, rfl, .empty, ?_⟩
    change (if r.engine.config.minify then some {} else none : Option Minifier).isSome = _
    cases r.engine.config.minify <;> rfl
  have hdrains := drains_pullFrom (plan program r.engine.config node) hready hsmooth
  rw [drain_plan] at hdrains
  exact hdrains

theorem Sound.drains (h : r.Sound config)
    (hfallback : config.minify = true → '<' ∉ config.errorFallback.toList)
    (program : Program F σ) (node : Node F) (world : World σ) :
    ∃ items last, Drains (MarkupStream.new r program node world).next.value items last ∧
      EndsWith config (MarkupStream.new r program node world) (r.streamed program node world)
        items last :=
  h.drains_of_smooth (h.smooth (fun _ => hfallback) program node world)

theorem Sound.agree_streamed (h : r.Sound config) (program : Program F σ) (node : Node F)
    (world : World σ) :
    Walk.Agree (WalkState.Beside config F)
      (fun b u o => o.topDown config.enableHydration config.errorFallback r.actions = (u, b))
      (r.streamed program node world) (outlining program config node world.state) := by
  obtain ⟨rfl, hcache⟩ := h
  exact tracks_topDown (Nat.add_comm _ _) node r.actions (r.engine.start world r.actions).2
    (outlineStart world.state) rfl ⟨rfl, rfl, rfl, rfl, hcache⟩

theorem Sound.drain_result_of_smooth (h : r.Sound config) (hencoding : config.encoding = .utf8)
    {program : Program F σ} {node : Node F} {world : World σ}
    (hsmooth : r.Smooth program node world) :
    ∃ items last, Drains (MarkupStream.new r program node world).next.value items last ∧
      Delivers items ((outlining program config node world.state).1.map fun o =>
        let html := (o.topDown config.enableHydration config.errorFallback r.actions).1
        if config.minify then Markup.minify html else html) ∧
      ∀ o, (outlining program config node world.state).1 = .ok o →
        last.close.1.actions =
          (o.topDown config.enableHydration config.errorFallback r.actions).2 := by
  obtain ⟨items, last, hdrains, hends⟩ := h.drains_of_smooth hsmooth
  have hdelivers := hends.delivers hencoding rfl (by rw [← h.configured]; rfl)
  have hactions : last.close.1.actions = (r.streamed program node world).2.backend := by
    rw [close, hends.walk]
  have agree := h.agree_streamed program node world
  refine ⟨items, last, hdrains, ?_⟩
  rw [hactions]
  generalize r.streamed program node world = p at agree hdelivers ⊢
  generalize outlining program config node world.state = q at agree ⊢
  cases agree with
  | error _ => exact ⟨hdelivers, fun _ ho => nomatch ho⟩
  | ok htext _ =>
    have hhtml := congrArg Prod.fst htext
    simp only [Except.map, hhtml]
    refine ⟨hdelivers, fun o ho => ?_⟩
    cases ho
    exact (congrArg Prod.snd htext).symm

theorem Sound.drain_result (h : r.Sound config) (hencoding : config.encoding = .utf8)
    (hfallback : config.minify = true → '<' ∉ config.errorFallback.toList)
    (program : Program F σ) (node : Node F) (world : World σ) :
    ∃ items last, Drains (MarkupStream.new r program node world).next.value items last ∧
      Delivers items ((outlining program config node world.state).1.map fun o =>
        let html := (o.topDown config.enableHydration config.errorFallback r.actions).1
        if config.minify then Markup.minify html else html) ∧
      ∀ o, (outlining program config node world.state).1 = .ok o →
        last.close.1.actions =
          (o.topDown config.enableHydration config.errorFallback r.actions).2 :=
  h.drain_result_of_smooth hencoding (h.smooth (fun _ => hfallback) program node world)

theorem Sound.streamed_eq_walked (h : r.Sound config) (hdry : config.enableHydration = false)
    (program : Program F σ) (node : Node F) (world : World σ) :
    r.streamed program node world = r.walked program node world := by
  obtain ⟨rfl, -⟩ := h
  exact exec_streamed_dry hdry _ 1 (Nat.add_comm _ _) node _

theorem Sound.walked_same (h : r.Sound config) (program : Program F σ) (node : Node F)
    {world world' : World σ} (hstate : world.state = world'.state) :
    (r.walked program node world).1 = (r.walked program node world').1 ∧
      (r.walked program node world).2.state = (r.walked program node world').2.state := by
  have agree := h.agree program node world
  have agree' := h.agree program node world'
  rw [hstate] at agree
  exact agree.same agree'

private theorem walked_twin (program : Program F σ) (node : Node F) {world world' : World σ}
    (hstate : world.state = world'.state)
    (hexpired : (r.walked program node world).2.cache.expired = r.engine.cache.expired)
    (hexpired' : (r.walked program node world').2.cache.expired = r.engine.cache.expired) :
    (r.walked program node world).2.Twin (r.walked program node world').2 := by
  have timeless := timeless_walk program r.engine.config
    (Markup.backend r.engine.config.enableHydration) node
  refine (timeless.twin ?_ hexpired hexpired').2
  refine ⟨?_, rfl, rfl⟩
  rw [start_eq, start_eq, hstate]

/-- Streaming gives what rendering gives, from the same renderer and the same state of the
functions, whatever the times: chunks that join to the markup, or the error after chunks. Both call
the same functions in the same order, and while no entry of the cache goes because of its age, both
leave the same cache and the same counts. -/
theorem drain_eq_render (hr : r.Reachable config) (hencoding : config.encoding = .utf8)
    (hdry : config.enableHydration = false)
    (hfallback : config.minify = true → '<' ∉ config.errorFallback.toList)
    (program : Program F σ) (node : Node F) (world world' : World σ)
    (hstate : world.state = world'.state) :
    (∃ items last, Drains (MarkupStream.new r program node world').next.value items last ∧
      Delivers items (r.render program node world).value.result ∧
      last.close.2.state = (r.render program node world).value.world.state ∧
      ((r.render program node world).value.renderer.engine.cache.expired =
          r.engine.cache.expired →
        last.close.1.engine.cache.expired = r.engine.cache.expired →
          last.close.1.engine.cache.ageless =
            (r.render program node world).value.renderer.engine.cache.ageless ∧
          last.close.1.engine.metrics.counters =
            (r.render program node world).value.renderer.engine.metrics.counters)) ∧
    ∃ items last,
      Drains (MarkupStream.new r program.recorded node world'.recorded).next.value items last ∧
      last.close.2.state.2 =
        (r.render program.recorded node world.recorded).value.world.state.2 := by
  have hsound := hr.sound
  refine ⟨?_, ?_⟩
  · obtain ⟨items, last, hdrains, hends⟩ := hsound.drains hfallback program node world'
    rw [hsound.streamed_eq_walked hdry] at hends
    have hsame := hsound.walked_same program node hstate
    have hdelivers := hends.delivers hencoding rfl (by rw [← hsound.configured]; rfl)
    refine ⟨items, last, hdrains, ?_, ?_, fun hexpired hexpired' => ?_⟩
    · rw [← hsame.1, ← hsound.configured] at hdelivers
      exact hdelivers
    · exact hends.state_close.trans hsame.2.symm
    · rw [hends.cache_close] at hexpired' ⊢
      rw [hends.counters_close]
      have htwin := walked_twin program node hstate hexpired hexpired'
      exact ⟨htwin.cache.symm, congrArg Scene.counters htwin.scene.symm⟩
  · obtain ⟨items, last, hdrains, hends⟩ :=
      hsound.drains hfallback program.recorded node world'.recorded
    rw [hsound.streamed_eq_walked hdry] at hends
    have hrecorded : (world.recorded : World (Recorded F σ)).state = world'.recorded.state :=
      congrArg (·, []) hstate
    have hsame := hsound.walked_same program.recorded node hrecorded
    exact ⟨items, last, hdrains, congrArg Prod.snd (hends.state_close.trans hsame.2.symm)⟩

theorem drain_eq_render_counting :
    ∃ items last, Drains (MarkupStream.new (fresh { minify := true, errorFallback := "failed" })
        Program.counting (.element ((Element.new "p").child (.component (.producer "tick"))))
        { state := 7, clock := { reading := id } }).next.value items last ∧
      Delivers items (.ok "<p>7</p>") := by
  have hr : (fresh { minify := true, errorFallback := "failed" } : MarkupRenderer String).Reachable
      { minify := true, errorFallback := "failed" } := .new rfl
  have hfallback : '<' ∉ "failed".toList := by decide
  obtain ⟨⟨items, last, hdrains, hdelivers, -⟩, -⟩ := drain_eq_render hr rfl rfl
    (fun _ => hfallback) Program.counting
    (.element ((Element.new "p").child (.component (.producer "tick"))))
    { state := 7, clock := { reading := id } } { state := 7, clock := { reading := id } } rfl
  have hrendered : ((fresh { minify := true, errorFallback := "failed" }).render Program.counting
      (.element ((Element.new "p").child (.component (.producer "tick"))))
      { state := 7, clock := { reading := id } }).value.result =
        .ok (Markup.minify "<p>7</p>") := rfl
  have hminified : Markup.minify "<p>7</p>" = "<p>7</p>" := by decide +kernel
  rw [hrendered, hminified] at hdelivers
  exact ⟨items, last, hdrains, hdelivers⟩

end MarkupRenderer

end TreeRender
