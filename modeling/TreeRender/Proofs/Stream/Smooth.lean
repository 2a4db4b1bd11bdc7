import TreeRender.Proofs.Failures.Counted
import TreeRender.Proofs.Stream.Pieces

/-!
# Streams in which nothing fails

The fallback is only written after a failure was counted. So a stream that ends without a count
writes nothing but whole pieces, whatever the fallback is.
-/

namespace TreeRender

open Markup

variable {F σ α γ : Type} {config : Config}

structure WalkState.Contained (F : Type) (config : Config) (s : WalkState σ (Registry F)) :
    Prop where
  cache : s.cache.Valid F config
  quiet : s.toScene.NoFailure

/-- A part of a walk that keeps failures contained and does not forget any that was counted. If it
counts none, its result is as `P` says. -/
def Walk.Counts (config : Config) (P : α → Prop) (x : Walk σ (Registry F) α) : Prop :=
  ∀ s : WalkState σ (Registry F), s.Contained F config →
    (x.exec s).2.Contained F config ∧ s.counters.errors ≤ (x.exec s).2.counters.errors ∧
    ∀ a, (x.exec s).1 = .ok a → (x.exec s).2.counters.errors = s.counters.errors → P a

namespace Walk.Counts

variable {P : α → Prop} {Q : γ → Prop}

theorem pure {a : α} (h : P a) : Walk.Counts config P (Pure.pure a : Walk σ (Registry F) α) := by
  refine fun s hs => ⟨hs, Nat.le_refl _, fun b hb _ => ?_⟩
  cases hb
  exact h

private theorem throw (e : RenderError) : Walk.Counts config P (throw e : Walk σ (Registry F) α) :=
  fun _ hs => ⟨hs, Nat.le_refl _, fun _ hb => nomatch hb⟩

theorem bind {x : Walk σ (Registry F) α} {f : α → Walk σ (Registry F) γ}
    (hx : Walk.Counts config P x) (hf : ∀ a, Walk.Counts config (fun c => P a → Q c) (f a)) :
    Walk.Counts config Q (x >>= f) := by
  intro s hs
  obtain ⟨hcontained, hle, hresult⟩ := hx s hs
  rw [exec_bind]
  generalize x.exec s = p at hcontained hle hresult ⊢
  obtain ⟨e | a, t⟩ := p
  · exact ⟨hcontained, hle, fun _ hb => nomatch hb⟩
  · obtain ⟨hcontained', hle', hresult'⟩ := hf a t hcontained
    refine ⟨hcontained', Nat.le_trans hle hle', fun c hc hsame => ?_⟩
    -- Nothing is counted on the whole, so nothing was counted in either part.
    have hfirst : t.counters.errors = s.counters.errors :=
      Nat.le_antisymm (hsame ▸ hle') hle
    exact hresult' c hc (hsame.trans hfirst.symm) (hresult a rfl hfirst)

theorem after {x : Walk σ (Registry F) α} {f : α → Walk σ (Registry F) γ}
    (hx : Walk.Counts config (fun _ => True) x) (hf : ∀ a, Walk.Counts config Q (f a)) :
    Walk.Counts config Q (x >>= f) := by
  apply hx.bind
  intro a s hs
  obtain ⟨hcontained, hle, hresult⟩ := hf a s hs
  exact ⟨hcontained, hle, fun c hc hsame _ => hresult c hc hsame⟩

private theorem onBackend {x : StateT (Registry F) Logged α} (h : ∀ r, P (x r).value.1) :
    Walk.Counts config P (Walk.onBackend x : Walk σ (Registry F) α) := by
  refine fun s hs => ⟨⟨hs.cache, hs.quiet⟩, Nat.le_refl _, fun a ha _ => ?_⟩
  cases ha
  exact h s.backend

private theorem countElement : Walk.Counts config (fun _ => True)
    (Walk.count Scene.countElement : Walk σ (Registry F) Unit) :=
  fun _ hs => ⟨⟨hs.cache, hs.quiet⟩, Nat.le_refl _, fun _ _ _ => trivial⟩

theorem logged (x : Logged α) :
    Walk.Counts config (fun _ => True) (liftM x : Walk σ (Registry F) α) :=
  fun _ hs => ⟨hs, Nat.le_refl _, fun _ _ _ => trivial⟩

end Walk.Counts

namespace Markup

variable {program : Program F σ} {minifies : Bool}

private theorem counts_recover (cause : CallError) : Walk.Counts config (fun _ => True)
    (recover config (backend config.enableHydration) cause : Walk σ (Registry F) String) := by
  unfold recover
  split
  · exact .throw _
  · exact .after (.logged _) fun _ => .onBackend fun _ => trivial

private theorem counts_recovered (cause : CallError) {rest : Plan F σ}
    (hrest : Walk.Counts config (fun _ => True) (rest.drain config)) :
    Walk.Counts config (fun _ => True)
      (followedBy config (recover config (backend config.enableHydration) cause) rest) :=
  .after (counts_recover cause) fun _ => .after hrest fun _ => .pure trivial

private theorem counts_walkDirective (directive : Option (Directive F)) :
    Walk.Counts config (fun texts => ∀ t ∈ texts, IsPiece minifies t)
      (walkDirective program config (backend config.enableHydration) directive) := by
  cases directive with
  | none => exact .pure fun _ h => nomatch h
  | some directive =>
    intro s hs
    obtain ⟨hle, hlt⟩ := errors_directiveText program directive s.toScene
    have hpending := pending_directiveText program directive s.toScene
    simp only [walkDirective]
    rw [Walk.exec_bind, Walk.exec_onScene]
    generalize (directiveText program directive).exec s.toScene = p at hle hlt hpending ⊢
    obtain ⟨cause | text, t⟩ := p
    · have hcontained : { s with toScene := t }.Contained F config :=
        ⟨hs.cache, fun cause hfailed => hs.quiet cause (hpending ▸ hfailed)⟩
      obtain ⟨hcontained', hle', -⟩ := counts_recover cause { s with toScene := t } hcontained
      have hlt' := Nat.lt_of_lt_of_le (hlt cause rfl) hle'
      simp only [Walk.exec_bind_pure]
      exact ⟨hcontained', Nat.le_of_lt hlt', fun _ _ hsame => absurd hsame (Nat.ne_of_gt hlt')⟩
    · refine ⟨⟨hs.cache, fun cause hfailed => hs.quiet cause (hpending ▸ hfailed)⟩, hle, ?_⟩
      intro texts htexts _ u hu hminifies
      cases htexts
      rw [List.mem_singleton.1 hu]
      exact whole_escape text

private theorem counts_opening {e : Element F (Node F)} (hvalid : isValidName e.tag = true) :
    Walk.Counts config (IsPiece minifies) (opening program config e) := by
  have written : Walk.Counts config (IsPiece minifies)
      (Walk.onBackend (openTag config.enableHydration e) : Walk σ (Registry F) String) := by
    apply Walk.Counts.onBackend
    intro r _
    rw [value_openTag]
    exact whole_openText hvalid _ r
  unfold opening
  refine .after .countElement fun _ => written.bind fun tag => ?_
  cases isVoid e.tag with
  | true => exact .after (.logged _) fun _ => .pure id
  | false =>
    apply Walk.Counts.bind (counts_walkDirective e.text)
    exact fun texts => .pure fun htexts htag => htag.append (.join htexts)

private theorem counts_pieceOf {levels depth : Nat} (hdepth : depth + levels = config.maxDepth)
    {e : Element F (Node F)} (hcacheable : config.isCacheable e = true) :
    Walk.Counts config (IsPiece minifies)
      (pieceOf program config (levels + 1) depth (.element e)) := by
  intro s hs
  let t : WalkState σ Unit :=
    { toScene := s.toScene, clock := s.clock, cache := s.cache, backend := () }
  have agree : Walk.Agree (WalkState.Beside config F) (WrittenTopDown config s.backend)
      ((pieceOf program config (levels + 1) depth (.element e)).exec s)
      ((outlineFrom program config (levels + 1) depth (.element e)).exec t) :=
    tracks_pieceOf hdepth hcacheable s.backend s t rfl ⟨rfl, rfl, rfl, rfl, hs.cache⟩
  obtain ⟨k, hk⟩ := exec_outlineFrom_functionFree program config
    (Config.isCacheable_functionFree hcacheable) (levels + 1) depth t
  have hpiece : Walk.Keeps config (IsPiece minifies)
      (pieceOf program config (levels + 1) depth (.element e) : Walk σ (Registry F) String) :=
    keeps_pieceOf hdepth hcacheable
  have hpending := agree.beside.pending
  have herrors := agree.beside.errors
  rw [hk] at hpending herrors
  refine ⟨⟨agree.beside.cache, fun cause hfailed => ?_⟩, Nat.le_of_eq herrors.symm,
    fun text htext _ => ?_⟩
  · exact hs.quiet cause (hpending.symm.trans hfailed)
  · exact (hpiece s hs.cache).2 text htext

def CountsFailure (x : Calls σ (Except RenderError (Node F))) : Prop :=
  ∀ s : Scene σ, s.NoFailure → ∀ cause, (x.exec s).1 = .error (.failed cause) →
    s.counters.errors < (x.exec s).2.counters.errors

private theorem stepsAre_counts (hcontained : config.throwOnError = false) :
    StepsAre program config
      (Walk.Counts config (IsPiece minifies) : Walk σ (Registry F) String → Prop)
      (fun x => x.Counts ∧ CountsFailure x) where
  tooDeep := .after (.logged _) fun _ => .throw _
  text content := .pure fun _ => whole_escape content
  unnamed _ := .after (.logged _) fun _ => .pure .empty
  opening _ hvalid := counts_opening hvalid
  closing _ hvalid := .pure fun _ => whole_closeTag hvalid
  piece _ _ _ hdepth _ hcacheable := counts_pieceOf hdepth hcacheable
  call levels depth c _ _ := by
    have resolves (n : Node F) : (resolveFrom program config levels (depth + 1) n).Counts :=
      counts_resolveFrom hcontained levels (depth + 1) n
    exact ⟨counts_invoke resolves depth c, fun s hs => (errors_invoke resolves depth c hs).2⟩

section

variable {plan : Plan F σ} (h : plan.Forall (Walk.Counts config (IsPiece minifies))
  fun x => x.Counts ∧ CountsFailure x)

include h

private theorem Plan.Forall.counts_drain : Walk.Counts config (fun _ => True) (plan.drain config)
    := by
  induction plan with
  | done => exact .pure trivial
  | write opens piece rest ih =>
    apply Walk.Counts.bind h.1
    exact fun _ => .after (ih h.2) fun _ => .pure fun _ => trivial
  | call component resume rest ihresume ihrest =>
    intro s hs
    obtain ⟨hquiet, hle⟩ := h.1.1 s.toScene hs.quiet
    rw [Plan.drain, Walk.exec_bind, Walk.exec_onScene]
    generalize component.exec s.toScene = p at hquiet hle ⊢
    obtain ⟨e | node, scene⟩ := p
    · have hcontained : { s with toScene := scene }.Contained F config := ⟨hs.cache, hquiet⟩
      cases e with
      | failed cause =>
        obtain ⟨hcontained', hle', -⟩ := counts_recovered cause (ihrest h.2.2) _ hcontained
        exact ⟨hcontained', Nat.le_trans hle hle', fun _ _ _ => trivial⟩
      | depthExceeded depth maxDepth => exact ⟨hcontained, hle, fun _ _ _ => trivial⟩
      | config cause => exact ⟨hcontained, hle, fun _ _ _ => trivial⟩
    · obtain ⟨hcontained, hle', -⟩ :=
        ihresume node (h.2.1 node) { s with toScene := scene } ⟨hs.cache, hquiet⟩
      exact ⟨hcontained, Nat.le_trans hle hle', fun _ _ _ => trivial⟩

private theorem Plan.Forall.smooth {s : WalkState σ (Registry F)} (hs : s.Contained F config)
    (herrors : ((plan.drain config).exec s).2.counters.errors = s.counters.errors) :
    plan.Smooth config minifies s := by
  induction plan generalizing s with
  | done => trivial
  | write opens piece rest ih =>
    intro text t hpiece
    obtain ⟨hcontained, hle, hresult⟩ := h.1 s hs
    rw [hpiece] at hcontained hle hresult
    have hdrain : (((Plan.write opens piece rest).drain config).exec s).2 =
        ((rest.drain config).exec t).2 := by
      rw [Plan.drain, Walk.exec_bind_ok _ hpiece, Walk.exec_bind_pure]
    obtain ⟨-, hle', -⟩ := h.2.counts_drain t hcontained
    rw [hdrain] at herrors
    have hsame : t.counters.errors = s.counters.errors := Nat.le_antisymm (herrors ▸ hle') hle
    exact ⟨hresult text rfl hsame, ih h.2 hcontained (herrors.trans hsame.symm)⟩
  | call component resume rest ihresume ihrest =>
    obtain ⟨hquiet, hle⟩ := h.1.1 s.toScene hs.quiet
    have hfails := h.1.2 s.toScene hs.quiet
    rw [Plan.drain, Walk.exec_bind, Walk.exec_onScene] at herrors
    refine ⟨fun node scene hcall => ?_, fun cause scene hcall => ?_⟩
    · rw [hcall] at hquiet hle herrors
      have hcontained : { s with toScene := scene }.Contained F config := ⟨hs.cache, hquiet⟩
      obtain ⟨-, hle', -⟩ := (h.2.1 node).counts_drain _ hcontained
      have hsame : scene.counters.errors = s.counters.errors :=
        Nat.le_antisymm (herrors ▸ hle') hle
      exact ihresume node (h.2.1 node) hcontained (herrors.trans hsame.symm)
    · -- The call has counted its failure, and counts only grow.
      have hlt := hfails cause (by rw [hcall])
      rw [hcall] at hquiet hlt herrors
      obtain ⟨-, hle', -⟩ := counts_recovered cause h.2.2.counts_drain
        { s with toScene := scene } ⟨hs.cache, hquiet⟩
      exact absurd herrors (Nat.ne_of_gt (Nat.lt_of_lt_of_le hlt hle'))

end

theorem smooth_plan (node : Node F) {s : WalkState σ (Registry F)} (hs : s.Contained F config)
    (herrors : (((plan program config node).drain config).exec s).2.counters.errors =
      s.counters.errors) :
    (plan program config node).Smooth config minifies s := by
  cases hthrow : config.throwOnError with
  | true =>
    have hany : config.throwOnError = false → minifies = true →
        '<' ∉ config.errorFallback.toList := fun h => absurd (hthrow.symm.trans h) (by decide)
    exact (sound_plan hany node).smooth hany hs.cache
  | false => exact (forall_plan (stepsAre_counts hthrow) node).smooth hs herrors

end Markup

end TreeRender
