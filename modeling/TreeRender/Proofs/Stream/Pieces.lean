import TreeRender.Proofs.Minify.Pieces
import TreeRender.Proofs.Stream.Steps
import TreeRender.Proofs.Stream.TopDown

/-!
# The pieces of a stream

Every step of the plan of a tree keeps the cache valid. What it writes can be given to the minifier
on its own, provided that no tag begins in the fallback or that the fallback is not written.
-/

namespace TreeRender

variable {F σ α γ : Type}

/-- A part of a walk that keeps the cache valid, and whose result is as `P` says. -/
def Walk.Keeps (config : Config) (P : α → Prop) (x : Walk σ (Registry F) α) : Prop :=
  ∀ s : WalkState σ (Registry F), s.cache.Valid F config →
    (x.exec s).2.cache.Valid F config ∧ ∀ a, (x.exec s).1 = .ok a → P a

namespace Walk.Keeps

variable {config : Config} {P : α → Prop} {Q : γ → Prop}

theorem pure {a : α} (h : P a) :
    Walk.Keeps config P (Pure.pure a : Walk σ (Registry F) α) := by
  intro s hs
  refine ⟨hs, fun b hb => ?_⟩
  cases hb
  exact h

private theorem throw (e : RenderError) : Walk.Keeps config P (throw e : Walk σ (Registry F) α) :=
  fun _ hs => ⟨hs, fun _ hb => nomatch hb⟩

theorem bind {x : Walk σ (Registry F) α} {f : α → Walk σ (Registry F) γ}
    (hx : Walk.Keeps config P x) (hf : ∀ a, P a → Walk.Keeps config Q (f a)) :
    Walk.Keeps config Q (x >>= f) := by
  intro s hs
  obtain ⟨hcache, hresult⟩ := hx s hs
  rw [exec_bind]
  generalize x.exec s = p at hcache hresult ⊢
  obtain ⟨a | a, t⟩ := p
  · exact ⟨hcache, fun _ hb => nomatch hb⟩
  · exact hf a (hresult a rfl) t hcache

private theorem onScene (x : Calls σ α) :
    Walk.Keeps config (fun _ => True) (Walk.onScene x : Walk σ (Registry F) α) :=
  fun _ hs => ⟨hs, fun _ _ => trivial⟩

theorem onBackend {x : StateT (Registry F) Logged α} (h : ∀ r, P (x r).value.1) :
    Walk.Keeps config P (Walk.onBackend x : Walk σ (Registry F) α) := by
  intro s hs
  refine ⟨hs, fun a ha => ?_⟩
  cases ha
  exact h s.backend

private theorem count (f : Scene σ → Scene σ) :
    Walk.Keeps config (fun _ => True) (Walk.count f : Walk σ (Registry F) Unit) :=
  fun _ hs => ⟨hs, fun _ _ => trivial⟩

theorem logged (x : Logged α) :
    Walk.Keeps config (fun _ => True) (liftM x : Walk σ (Registry F) α) :=
  fun _ hs => ⟨hs, fun _ _ => trivial⟩

end Walk.Keeps

namespace Markup

def IsPiece (minifies : Bool) (text : String) : Prop := minifies = true → Whole text.toList

variable {minifies : Bool}

theorem IsPiece.empty : IsPiece minifies "" := fun _ => .nil

theorem IsPiece.append {s t : String} (hs : IsPiece minifies s) (ht : IsPiece minifies t) :
    IsPiece minifies (s ++ t) := by
  intro h
  rw [String.toList_append]
  exact (hs h).append (ht h)

theorem IsPiece.join {texts : List String} (h : ∀ t ∈ texts, IsPiece minifies t) :
    IsPiece minifies (String.join texts) :=
  fun hm => whole_join fun t ht => h t ht hm

/-- Every step keeps the cache valid and writes something fit for the minifier. -/
def Plan.Sound (config : Config) (minifies : Bool) : Plan F σ → Prop
  | .done => True
  | .write _ piece rest => Walk.Keeps config (IsPiece minifies) piece ∧ rest.Sound config minifies
  | .call _ resume rest =>
    (∀ node, (resume node).Sound config minifies) ∧ rest.Sound config minifies

/-- From the state on, a run of the plan only writes what is fit for the minifier. -/
def Plan.Smooth (config : Config) (minifies : Bool) : Plan F σ → WalkState σ (Registry F) → Prop
  | .done, _ => True
  | .write _ piece rest, s => ∀ text t, piece.exec s = (.ok text, t) →
    IsPiece minifies text ∧ rest.Smooth config minifies t
  | .call component resume rest, s =>
    (∀ node scene, component.exec s.toScene = (.ok node, scene) →
      (resume node).Smooth config minifies { s with toScene := scene }) ∧
    ∀ cause scene, component.exec s.toScene = (.error (.failed cause), scene) →
      ∀ text t, (recover config (backend config.enableHydration) cause).exec
          { s with toScene := scene } = (.ok text, t) →
        IsPiece minifies text ∧ rest.Smooth config minifies t

private theorem Plan.Forall.sound {config : Config} {plan : Plan F σ}
    (h : plan.Forall (Walk.Keeps config (IsPiece minifies)) fun _ => True) :
    plan.Sound config minifies := by
  induction plan with
  | done => trivial
  | write opens piece rest ih => exact ⟨h.1, ih h.2⟩
  | call component resume rest ihresume ihrest =>
    exact ⟨fun node => ihresume node (h.2.1 node), ihrest h.2.2⟩

section

variable {program : Program F σ} {config : Config}
  (hfallback : config.throwOnError = false → minifies = true →
    '<' ∉ config.errorFallback.toList)

include hfallback

theorem keeps_recover (cause : CallError) : Walk.Keeps config (IsPiece minifies)
    (recover config (backend config.enableHydration) cause : Walk σ (Registry F) String) := by
  unfold recover
  cases hthrow : config.throwOnError with
  | true => exact .throw _
  | false =>
    exact .bind (.logged _) fun _ _ => .onBackend fun _ h => .of_notMem (hfallback hthrow h)

private theorem keeps_walkDirective (directive : Option (Directive F)) :
    Walk.Keeps config (fun texts => ∀ t ∈ texts, IsPiece minifies t)
      (walkDirective program config (backend config.enableHydration) directive) := by
  have single {t : String} (ht : IsPiece minifies t) (u : String) (hu : u ∈ [t]) :
      IsPiece minifies u := by
    rw [List.mem_singleton] at hu
    exact hu ▸ ht
  cases directive with
  | none => exact .pure fun _ h => nomatch h
  | some directive =>
    apply Walk.Keeps.bind (.onScene _)
    intro outcome _
    cases outcome with
    | ok text =>
      refine .bind (P := IsPiece minifies) (.onBackend fun _ _ => whole_escape text) ?_
      exact fun t ht => .pure (single ht)
    | error cause => exact .bind (keeps_recover hfallback cause) fun t ht => .pure (single ht)

private theorem keeps_opening {e : Element F (Node F)} (hvalid : isValidName e.tag = true) :
    Walk.Keeps config (IsPiece minifies) (opening program config e) := by
  have written : Walk.Keeps config (IsPiece minifies)
      (Walk.onBackend (openTag config.enableHydration e) : Walk σ (Registry F) String) := by
    apply Walk.Keeps.onBackend
    intro r _
    rw [value_openTag]
    exact whole_openText hvalid _ r
  unfold opening
  refine .bind (.count _) fun _ _ => .bind written fun tag htag => ?_
  cases isVoid e.tag with
  | true => exact .bind (.logged _) fun _ _ => .pure htag
  | false =>
    apply Walk.Keeps.bind (keeps_walkDirective hfallback e.text)
    intro texts htexts
    exact .pure (htag.append (.join htexts))

omit hfallback in
theorem keeps_pieceOf {levels depth : Nat} (hdepth : depth + levels = config.maxDepth)
    {e : Element F (Node F)} (hcacheable : config.isCacheable e = true) :
    Walk.Keeps config (IsPiece minifies)
      (pieceOf program config (levels + 1) depth (.element e)) := by
  intro s hs
  let t : WalkState σ Unit :=
    { toScene := s.toScene, clock := s.clock, cache := s.cache, backend := () }
  have agree : Walk.Agree (WalkState.Beside config F) (WrittenTopDown config s.backend)
      ((pieceOf program config (levels + 1) depth (.element e)).exec s)
      ((outlineFrom program config (levels + 1) depth (.element e)).exec t) :=
    tracks_pieceOf hdepth hcacheable s.backend s t rfl ⟨rfl, rfl, rfl, rfl, hs⟩
  have hfree := Config.isCacheable_functionFree hcacheable
  generalize (pieceOf program config (levels + 1) depth (.element e)).exec s = p at agree ⊢
  generalize hq : (outlineFrom program config (levels + 1) depth (.element e)).exec t = q at agree
  cases agree with
  | error hst => exact ⟨hst.cache, fun _ h => nomatch h⟩
  | ok hwritten hst =>
    refine ⟨hst.cache, fun text htext _ => ?_⟩
    cases htext
    obtain rfl := outline_of_exec program config hfree hq
    rw [WrittenTopDown, (Node.static_outline hfree).topDown_eq] at hwritten
    rw [← (Prod.mk.inj hwritten).1]
    exact whole_outline (.element e)

private theorem stepsAre_keeps : StepsAre program config
    (Walk.Keeps config (IsPiece minifies) : Walk σ (Registry F) String → Prop)
    (fun _ => True) where
  tooDeep := .bind (.logged _) fun _ _ => .throw _
  text content := .pure fun _ => whole_escape content
  unnamed _ := .bind (.logged _) fun _ _ => .pure .empty
  opening _ hvalid := keeps_opening hfallback hvalid
  closing _ hvalid := .pure fun _ => whole_closeTag hvalid
  piece _ _ _ hdepth _ hcacheable := keeps_pieceOf hdepth hcacheable
  call _ _ _ _ _ := trivial

theorem sound_plan (node : Node F) : (plan program config node).Sound config minifies :=
  (forall_plan (stepsAre_keeps hfallback) node).sound

theorem Plan.Sound.smooth {plan : Plan F σ} (h : plan.Sound config minifies)
    {s : WalkState σ (Registry F)} (hcache : s.cache.Valid F config) :
    plan.Smooth config minifies s := by
  induction plan generalizing s with
  | done => trivial
  | write opens piece rest ih =>
    intro text t hpiece
    obtain ⟨hkept, htext⟩ := h.1 s hcache
    rw [hpiece] at hkept htext
    exact ⟨htext text rfl, ih h.2 hkept⟩
  | call component resume rest ihresume ihrest =>
    refine ⟨fun node scene _ => ihresume node (h.1 node) hcache, ?_⟩
    intro cause scene _ text t hrecover
    have hkeeps : Walk.Keeps config (IsPiece minifies)
        (recover config (backend config.enableHydration) cause : Walk σ (Registry F) String) :=
      keeps_recover hfallback cause
    obtain ⟨hkept, htext⟩ := hkeeps { s with toScene := scene } hcache
    rw [hrecover] at hkept htext
    exact ⟨htext text rfl, ihrest h.2 hkept⟩

end

end Markup

end TreeRender
