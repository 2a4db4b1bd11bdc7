import TreeRender.Proofs.Cache.Valid

/-!
# Backends that realize outlines

A backend realizes outlines if its units stand for outlines as they are built up. Then rendering
with it tracks outlining the same tree, whatever the tree, the functions and the cache: a fragment
is only taken from the cache where walking the element anew would have given what it stands for.
-/

namespace TreeRender

open Markup

variable {F σ β β' U : Type}

/-- Units that are made without looking at an element stand for outlines: `R b b' u o` says that
making `u`, which took the backend from `b` to `b'`, amounts to making `o`. -/
structure Backend.RealizesText (backend : Backend F β U) (fallback : String)
    (R : β → β → U → Outline F → Prop) : Prop where
  text : ∀ b content,
    R b (backend.text content b).value.2 (backend.text content b).value.1 (.text content .nil)
  fallback : ∀ b, R b (backend.fallback fallback b).value.2 (backend.fallback fallback b).value.1
    (.fallback .nil)

structure Backend.Realizes (backend : Backend F β U) (fallback : String)
    (R : β → β → U → Outline F → Prop) : Prop extends backend.RealizesText fallback R where
  empty : ∀ b, R b (backend.empty b).value.2 (backend.empty b).value.1 .nil
  fragment : ∀ {b b₁ us os}, Chain R b b₁ us os →
    R b (backend.fragment us b₁).value.2 (backend.fragment us b₁).value.1 (.join os)
  element : ∀ {b b₁ us os} e, isValidName e.tag = true → (isVoid e.tag = true → os = []) →
    Chain R (backend.enter e b).value.2 b₁ us os →
      R b (backend.element e us b₁).value.2 (backend.element e us b₁).value.1
        (.element e (.join os) .nil)
  restore : backend.cachesFragments = true → ∀ b (e : Element F (Node F)),
    e.containsFunction = false → ∃ u b', (backend.fromCache e.plainMarkup b).value = (some u, b') ∧
      R b b' u e.outline
  store : backend.cachesFragments = true → ∀ {b b' u} {e : Element F (Node F)},
    e.containsFunction = false → R b b' u e.outline →
      (backend.toCache u b').value = (some e.plainMarkup, b')

/-- The state of a walk beside that of another one, say an outlining: the functions are in the same
state, the same failed and the same error is pending, and the cache is valid. -/
structure WalkState.Beside (config : Config) (F : Type) (s : WalkState σ β) (t : WalkState σ β') :
    Prop where
  state : s.state = t.state
  pending : s.pending = t.pending
  errors : s.counters.errors = t.counters.errors
  callDepths : s.callDepths = t.callDepths
  cache : s.cache.Valid F config

theorem Config.isCacheable_functionFree {config : Config} {e : Element F (Node F)}
    (h : config.isCacheable e = true) : e.containsFunction = false := by
  unfold Config.isCacheable at h
  simp only [Bool.and_eq_true, Bool.not_eq_true'] at h
  exact h.2

section

variable {program : Program F σ} {config : Config} {backend : Backend F β U}
  {R : β → β → U → Outline F → Prop}

theorem exec_cachedUnit_fits {depth : Nat} {e : Element F (Node F)}
    (h : depth + e.height - 1 ≤ config.maxDepth) (s : WalkState σ β) :
    (cachedUnit config backend depth e).exec s =
      let (fragment, cache) := s.cache.get e.signature s.clock.now
      let s := { s with clock := s.clock.tick, cache }
      match fragment with
      | none => (.ok none, s)
      | some fragment => (Walk.onBackend (backend.fromCache fragment)).exec s := by
  unfold cachedUnit
  rw [if_pos h]
  simp only [Walk.exec_bind, Walk.exec_get, Walk.exec_now, Walk.exec_modify]
  cases (s.cache.get e.signature s.clock.now).1 <;> rfl

theorem exec_cachedUnit_tooHigh {depth : Nat} {e : Element F (Node F)}
    (h : ¬depth + e.height - 1 ≤ config.maxDepth) (s : WalkState σ β) :
    (cachedUnit config backend depth e).exec s = (.ok none, s) := by
  unfold cachedUnit
  rw [if_neg h]
  rfl

theorem exec_storeUnit {e : Element F (Node F)} {unit : U} {fragment : String}
    {s : WalkState σ β} {b : β}
    (h : (backend.toCache unit s.backend).value = (some fragment, b)) :
    (storeUnit backend e unit).exec s = (.ok (), { s with
      backend := b
      clock := s.clock.tick
      cache := s.cache.insert e.signature fragment s.clock.now }) := by
  unfold storeUnit
  rw [Walk.exec_bind, Walk.exec_onBackend, h]
  rfl

theorem WalkState.Beside.scene {s : WalkState σ β} {t : WalkState σ β'} (h : s.Beside config F t) :
    s.toScene = t.toScene.recount s.counters := by
  rw [Scene.recount, ← h.state, ← h.pending, ← h.errors, ← h.callDepths]

theorem tracks_call {α : Type} {x : Calls σ α} (hx : x.Blind) (b : β) :
    Walk.Tracks (WalkState.Beside config F) b (fun b' a c => b' = b ∧ a = c)
      (Walk.onScene x : Walk σ β α) (Walk.onScene x : Walk σ β' α) := by
  rintro s t rfl h
  rw [Walk.exec_onScene, Walk.exec_onScene, h.scene, hx s.counters t.toScene]
  exact .ok ⟨rfl, rfl⟩ ⟨rfl, rfl, rfl, rfl, h.cache⟩

theorem tracks_onBackend {α γ : Type} {b : β} {Q : β → α → γ → Prop} {x : StateT β Logged α}
    {y : StateT Unit Logged γ} (h : Q (x b).value.2 (x b).value.1 (y ()).value.1) :
    Walk.Tracks (WalkState.Beside config F) b Q (Walk.onBackend x : Walk σ β α)
      (Walk.onBackend y) := by
  rintro s t rfl hst
  exact .ok h ⟨hst.state, hst.pending, hst.errors, hst.callDepths, hst.cache⟩

theorem tracks_countElement {α γ : Type} {b : β} {Q : β → α → γ → Prop} {x : Walk σ β α}
    {y : Walk σ Unit γ} (h : Walk.Tracks (WalkState.Beside config F) b Q x y) :
    Walk.Tracks (WalkState.Beside config F) b Q (do Walk.count Scene.countElement; x)
      (do Walk.count Scene.countElement; y) :=
  h.counted _ fun _ _ hst => ⟨hst.state, hst.pending, hst.errors, hst.callDepths, hst.cache⟩

theorem tracks_recover (h : backend.RealizesText config.errorFallback R) (cause : CallError)
    (b : β) :
    Walk.Tracks (WalkState.Beside config F) b (R b) (recover config backend cause : Walk σ β U)
      (recover config Outline.backend cause) :=
  .recover cause (tracks_onBackend (h.fallback b))

theorem tracks_walkDirective (h : backend.RealizesText config.errorFallback R)
    (directive : Option (Directive F)) (b : β) :
    Walk.Tracks (WalkState.Beside config F) b (Chain R b)
      (walkDirective program config backend directive)
      (walkDirective program config Outline.backend directive) :=
  .walkDirective directive .nil (fun _ _ _ => .singleton)
    (fun d => tracks_call (blind_directiveText program d) b)
    (fun content => tracks_onBackend (h.text b content)) (tracks_onBackend (h.fallback b))

section

variable (h : backend.Realizes config.errorFallback R)

include h

private theorem tracks_buildElement {f : Node F → Walk σ β U} {g : Node F → Walk σ Unit (Outline F)}
    (hbelow : ∀ n b, Walk.Tracks (WalkState.Beside config F) b (R b) (f n) (g n))
    {e : Element F (Node F)} (hvalid : isValidName e.tag = true) (b : β) :
    Walk.Tracks (WalkState.Beside config F) b (R b) (buildElement program config backend f e)
      (buildElement program config Outline.backend g e) := by
  have enters : Walk.Tracks (WalkState.Beside (σ := σ) config F) b
      (fun b' _ _ => b' = (backend.enter e b).value.2) (Walk.onBackend (backend.enter e))
      (Walk.onBackend (Outline.backend.enter e)) := tracks_onBackend rfl
  cases hvoid : isVoid e.tag with
  | true =>
    rw [buildElement_void hvoid, buildElement_void hvoid]
    apply enters.bind
    rintro _ _ _ rfl
    exact .logged _ _ (tracks_onBackend (h.element e hvalid (fun _ => rfl) .nil))
  | false =>
    rw [buildElement_content hvoid, buildElement_content hvoid]
    apply enters.bind
    rintro _ _ _ rfl
    apply Walk.Tracks.bind (tracks_walkDirective h.toRealizesText e.text _)
    intro b₁ us os hdirective
    apply Walk.Tracks.bind (tracks_walkEach e.childNodes (fun n _ b => hbelow n b) b₁)
    intro b₂ us' os' hchildren
    have hcontent (hvoid' : isVoid e.tag = true) : os ++ os' = [] := by
      rw [hvoid] at hvoid'
      cases hvoid'
    exact tracks_onBackend (h.element e hvalid hcontent (hdirective.append hchildren))

private theorem tracks_storeUnit (hcaches : backend.cachesFragments = true)
    {f : Node F → Walk σ β U} {g : Node F → Walk σ Unit (Outline F)}
    (hbelow : ∀ n b, Walk.Tracks (WalkState.Beside config F) b (R b) (f n) (g n))
    {e : Element F (Node F)} (hvalid : isValidName e.tag = true)
    (hcacheable : config.isCacheable e = true)
    (houtline : ∀ t o t', (buildElement program config Outline.backend g e).exec t = (.ok o, t') →
      o = e.outline) (b : β) :
    Walk.Tracks (WalkState.Beside config F) b (R b)
      (do
        Walk.count Scene.countMiss
        let unit ← buildElement program config backend f e
        storeUnit backend e unit
        return unit)
      (buildElement program config Outline.backend g e) := by
  have counted (s : WalkState σ β) (t : WalkState σ Unit) (hst : s.Beside config F t) :
      { s with toScene := s.toScene.countMiss }.Beside config F t :=
    ⟨hst.state, hst.pending, hst.errors, hst.callDepths, hst.cache⟩
  refine .afterLeft _ (fun _ => rfl) (fun _ => rfl) counted ?_
  rintro s t rfl hst
  have built : Walk.Agree (WalkState.Beside config F) (R s.backend)
      ((buildElement program config backend f e).exec s)
      ((buildElement program config Outline.backend g e).exec t) :=
    tracks_buildElement h hbelow hvalid s.backend s t rfl hst
  rw [Walk.exec_bind]
  generalize hx : (buildElement program config backend f e).exec s = p at built ⊢
  generalize hy : (buildElement program config Outline.backend g e).exec t = q at built ⊢
  cases built with
  | error hst' => exact .error hst'
  | ok hr hst' =>
    obtain rfl := houtline _ _ _ hy
    have hstored := h.store hcaches (Config.isCacheable_functionFree hcacheable) hr
    simp only
    rw [Walk.exec_bind_ok _ (exec_storeUnit hstored), Walk.exec_pure]
    exact .ok hr ⟨hst'.state, hst'.pending, hst'.errors, hst'.callDepths,
      hst'.cache.insert hcacheable hvalid _⟩

private theorem tracks_cachedElement {levels depth : Nat}
    (hdepth : depth + levels = config.maxDepth)
    (hcaches : backend.cachesFragments = true) {f : Node F → Walk σ β U}
    (hbelow : ∀ n b, Walk.Tracks (WalkState.Beside config F) b (R b) (f n)
      (outlineFrom program config levels (depth + 1) n))
    {e : Element F (Node F)} (hvalid : isValidName e.tag = true)
    (hcacheable : config.isCacheable e = true) (b : β) :
    Walk.Tracks (WalkState.Beside config F) b (R b)
      (walkElement program config backend f depth e)
      (walkElement program config Outline.backend (outlineFrom program config levels (depth + 1))
        depth e) := by
  have hfree := Config.isCacheable_functionFree hcacheable
  have outlined := exec_buildElement_functionFree program config hvalid hfree
    (fun n hn t => exec_outlineFrom_functionFree program config hn levels (depth + 1) t)
  have rebuilt := tracks_storeUnit h hcaches hbelow hvalid hcacheable
    (fun _ _ _ hmade => outline_of_buildElement program config hvalid hfree hmade)
  have huncached : walkElement program config Outline.backend
      (outlineFrom program config levels (depth + 1)) depth e = _ :=
    walkElement_uncached hvalid rfl
  rw [huncached, walkElement_cached hvalid (Bool.and_eq_true_iff.2 ⟨hcaches, hcacheable⟩)]
  apply tracks_countElement
  rintro s t rfl hst
  by_cases hfits : depth + e.height - 1 ≤ config.maxDepth
  · have hget (fragment : String)
        (hfound : (s.cache.get e.signature s.clock.now).1 = some fragment) :
        fragment = e.plainMarkup := hst.cache.get_eq hfound
    have hcache := hst.cache.get e.signature s.clock.now
    rw [Walk.exec_bind, exec_cachedUnit_fits hfits]
    generalize s.cache.get e.signature s.clock.now = found at hget hcache ⊢
    obtain ⟨fragment, cache⟩ := found
    cases fragment with
    | none =>
      exact rebuilt s.backend { s with clock := s.clock.tick, cache } t rfl
        ⟨hst.state, hst.pending, hst.errors, hst.callDepths, hcache⟩
    | some fragment =>
      obtain rfl := hget fragment rfl
      obtain ⟨u, b', hrestored, hr⟩ := h.restore hcaches s.backend e hfree
      obtain ⟨k, hk⟩ := outlined t
      rw [hk, if_pos (by omega)]
      simp only [Walk.exec_onBackend, hrestored]
      exact .ok hr ⟨hst.state, hst.pending, hst.errors, hst.callDepths, hcache⟩
  · rw [Walk.exec_bind_ok _ (exec_cachedUnit_tooHigh hfits s)]
    exact rebuilt s.backend s t rfl hst

private theorem tracks_walkElement {levels depth : Nat} (hdepth : depth + levels = config.maxDepth)
    {f : Node F → Walk σ β U}
    (hbelow : ∀ n b, Walk.Tracks (WalkState.Beside config F) b (R b) (f n)
      (outlineFrom program config levels (depth + 1) n))
    (e : Element F (Node F)) (b : β) :
    Walk.Tracks (WalkState.Beside config F) b (R b)
      (walkElement program config backend f depth e)
      (walkElement program config Outline.backend (outlineFrom program config levels (depth + 1))
        depth e) := by
  cases hvalid : isValidName e.tag with
  | false =>
    rw [walkElement_invalid hvalid, walkElement_invalid hvalid]
    exact .logged _ _ (tracks_onBackend (h.empty b))
  | true =>
    cases hcached : backend.cachesFragments && config.isCacheable e with
    | true =>
      obtain ⟨hcaches, hcacheable⟩ := Bool.and_eq_true_iff.1 hcached
      exact tracks_cachedElement h hdepth hcaches hbelow hvalid hcacheable b
    | false =>
      rw [walkElement_uncached hvalid hcached, walkElement_uncached hvalid rfl]
      exact tracks_countElement (tracks_buildElement h hbelow hvalid b)

/-- Rendering a tree tracks outlining it. -/
theorem Backend.Realizes.tracks {levels depth : Nat}
    (hdepth : depth + levels = config.maxDepth + 1) (node : Node F) (b : β) :
    Walk.Tracks (WalkState.Beside config F) b (R b)
      (walkFrom program config backend levels depth node)
      (outlineFrom program config levels depth node) := by
  have simulates : Traversal.Simulates program config (WalkState.Beside config F) R
      (.ofBackend program config backend) (.ofBackend program config Outline.backend) := {
    calls := tracks_call
    empty := fun b => tracks_onBackend (h.empty b)
    text := fun content b => tracks_onBackend (h.text b content)
    fragment := fun hchain => tracks_onBackend (h.fragment hchain)
    recover := tracks_recover h.toRealizesText
    element := by
      intro levels depth hdepth hbelow e b
      have below : (Traversal.ofBackend program config Outline.backend).visit program config levels
          (depth + 1) = outlineFrom program config levels (depth + 1) :=
        funext fun n => (Traversal.walkFrom_eq_visit ..).symm
      rw [below]
      exact tracks_walkElement h hdepth (fun n b => below ▸ hbelow n b) e b }
  rw [outlineFrom, Traversal.walkFrom_eq_visit, Traversal.walkFrom_eq_visit]
  exact simulates.visit hdepth node b

end

end

end TreeRender
