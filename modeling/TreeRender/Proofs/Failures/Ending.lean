import TreeRender.Proofs.Failures.Fatal
import TreeRender.Proofs.Renderer.Endings

/-!
# Fatal errors end renders

A provider that a walk calls may meet a fatal error while it has nodes resolved. Then the walk ends
with this error, whatever the provider did after it, and calls no component any more. The outlining
of a tree takes the walk that all renders take, so all of them end so.
-/

namespace TreeRender

open Markup MarkupStream

variable {F H N σ : Type}

/-- A walk over a node, with levels left, comes to a component whose call meets a fatal error. The
parts before it were walked without one. -/
inductive WalkMeetsFatal (program : Program F σ) (config : Config) :
    (levels depth : Nat) → Node F → WalkState σ Unit → RenderError → Scene σ → Prop
  | called {levels depth c s e t} : MeetsFatal program config (.call levels depth c) s.toScene e t →
    WalkMeetsFatal program config (levels + 1) depth (.component c) s e t
  | result {levels depth c s node scene e t} :
    (invoke program config (resolveFrom program config levels (depth + 1)) depth c).exec s.toScene =
      (.ok node, scene) →
    WalkMeetsFatal program config levels (depth + 1) node { s with toScene := scene } e t →
    WalkMeetsFatal program config (levels + 1) depth (.component c) s e t
  | member {levels depth before n after s os s' e t} :
    (walkEach (outlineFrom program config (levels + 1) depth) before).exec s = (.ok os, s') →
    WalkMeetsFatal program config (levels + 1) depth n s' e t →
    WalkMeetsFatal program config (levels + 1) depth (.collection (before ++ n :: after)) s e t
  | child {levels depth element before n after s os s' os' s'' e t} : element.isEntered = true →
    element.childNodes = before ++ n :: after →
    (walkDirective program config Outline.backend element.text).exec
      { s with toScene := s.toScene.countElement } = (.ok os, s') →
    (walkEach (outlineFrom program config levels (depth + 1)) before).exec s' = (.ok os', s'') →
    WalkMeetsFatal program config levels (depth + 1) n s'' e t →
    WalkMeetsFatal program config (levels + 1) depth (.element element) s e t

section

variable {program : Program F σ} {config : Config}

private theorem exec_walkEach_error {β U : Type} {f : Node F → Walk σ β U}
    {before after : List (Node F)}
    {n : Node F} {s s' t : WalkState σ β} {us : List U} {e : RenderError}
    (hbefore : (walkEach f before).exec s = (.ok us, s')) (hn : (f n).exec s' = (.error e, t)) :
    (walkEach f (before ++ n :: after)).exec s = (.error e, t) := by
  induction before generalizing s us with
  | nil =>
    cases hbefore
    rw [List.nil_append, walkEach, Walk.exec_bind_error _ hn]
  | cons m rest ih =>
    rw [walkEach, Walk.exec_bind] at hbefore
    generalize hm : (f m).exec s = p at hbefore
    obtain ⟨_ | u, s₁⟩ := p
    · cases hbefore
    · simp only at hbefore
      rw [Walk.exec_bind_pure] at hbefore
      generalize hrest : (walkEach f rest).exec s₁ = q at hbefore
      obtain ⟨_ | us', s₂⟩ := q
      · cases hbefore
      · cases hbefore
        rw [List.cons_append, walkEach, Walk.exec_bind_ok _ hm, Walk.exec_bind_error _ (ih hrest)]

private theorem WalkMeetsFatal.exec_outlineFrom {levels depth : Nat} {node : Node F}
    {s : WalkState σ Unit}
    {e : RenderError} {t : Scene σ} (h : WalkMeetsFatal program config levels depth node s e t) :
    ∃ s', (outlineFrom program config levels depth node).exec s = (.error e, s') ∧
      s'.callDepths = t.callDepths := by
  induction h with
  | @called levels depth c s e t hmeets =>
    obtain ⟨hpending, hdepths⟩ := hmeets.leaves
    rw [outlineFrom, walkFrom, walkLevel, Walk.exec_bind, Walk.exec_onScene,
      exec_invoke_pending hpending]
    cases e with
    | failed cause =>
      have hthrow : config.throwOnError = true := hmeets.surfaces rfl
      simp only [recover, hthrow]
      exact ⟨_, rfl, hdepths⟩
    | depthExceeded depth maxDepth => exact ⟨_, rfl, hdepths⟩
    | config cause => exact ⟨_, rfl, hdepths⟩
  | result hinvoke _ ih =>
    rw [outlineFrom, walkFrom, walkLevel, Walk.exec_bind, Walk.exec_onScene, hinvoke]
    exact ih
  | @member levels depth before n after s os s' e t hbefore _ ih =>
    obtain ⟨s'', hn, hdepths⟩ := ih
    refine ⟨s'', ?_, hdepths⟩
    unfold outlineFrom at hbefore hn ⊢
    rw [Traversal.walkFrom_eq_visit, Traversal.visit, Traversal.visitLevel,
      Traversal.visitMembers_eq]
    have hlevel : (Traversal.ofBackend program config Outline.backend).visitLevel program config
        (resolveFrom program config levels (depth + 1))
        ((Traversal.ofBackend program config Outline.backend).visit program config levels
          (depth + 1)) levels depth =
        walkFrom program config Outline.backend (levels + 1) depth := by
      funext m
      rw [Traversal.walkFrom_eq_visit]
      rfl
    rw [hlevel]
    exact Walk.exec_bind_error _ (exec_walkEach_error hbefore hn)
  | @child levels depth element before n after s os s' os' s'' e t hentered hnodes hdirective
      hbefore _ ih =>
    obtain ⟨u, hn, hdepths⟩ := ih
    refine ⟨u, ?_, hdepths⟩
    obtain ⟨hvalid, hvoid⟩ := Bool.and_eq_true_iff.1 hentered
    unfold outlineFrom at hbefore hn ⊢
    rw [walkFrom, walkLevel, walkElement_uncached hvalid rfl,
      Walk.exec_bind_ok _ (Walk.exec_count _ _), buildElement_content (by simpa using hvoid),
      Walk.exec_bind_ok _ (t := { s with toScene := s.toScene.countElement }) rfl,
      Walk.exec_bind_ok _ hdirective, hnodes]
    exact Walk.exec_bind_error _ (exec_walkEach_error hbefore hn)

end

/-- A fatal error that a provider meets, at whatever level and through however many providers, is
what its call gives, whatever it does afterwards, and no component is called after it. Without one
no error is left pending. A render to markup, a drained stream and a render to live nodes whose walk
meets one end with it, and call no component after it either. -/
theorem fatal_error_ends_renders {config : Config} {r : MarkupRenderer F} {live : LiveRenderer H}
    {host : Dom.Host F H N} (hr : r.Reachable config) (hlive : live.Reachable host config)
    (program : Program F σ) :
    (∀ levels depth name s, s.pending = none →
      let resolve := resolveFrom program config levels (depth + 1)
      let called :=
        (callComponent program config resolve depth (.provider name)).exec (s.enterCall depth)
      (∀ e t, MeetsFatal program config (.call levels depth (.provider name)) s e t →
        called.2.callDepths = t.callDepths ∧
        (invoke program config resolve depth (.provider name)).exec s =
          (.error e, { called.2 with pending := none })) ∧
      ((∀ e t, ¬MeetsFatal program config (.call levels depth (.provider name)) s e t) →
        called.2.pending = none)) ∧
    ∀ node container (world : World σ) e t,
      WalkMeetsFatal program config (config.levelsAt 1) 1 node (outlineStart world.state) e t →
        (r.render program node world).value.result = .error e ∧
        (r.walked program node world).2.callDepths = t.callDepths ∧
        (live.render host program node container world).value.result = .error e ∧
        (live.walked host program node world).2.callDepths = t.callDepths ∧
        ∃ items last, Drains (MarkupStream.new r program node world).next.value items last ∧
          outcome items = .error e ∧ last.walk.callDepths = t.callDepths := by
  refine ⟨?_, ?_⟩
  · intro levels depth name s hs resolve called
    refine ⟨fun e t hmeets => ?_, fun hnone => ?_⟩
    · obtain ⟨hpending, hdepths⟩ := hmeets.leaves
      exact ⟨hdepths, exec_invoke_pending hpending⟩
    · cases hpending : called.2.pending with
      | none => rfl
      | some e =>
        obtain ⟨t, hmeets⟩ :=
          accountable_call (accountable_resolve levels (depth + 1)) (.provider name) s e hs hpending
        exact absurd hmeets (hnone e t)
  · intro node container world e t hmeets
    have hsound := hr.sound
    have hsoundlive : live.Sound F config := hlive.sound
    obtain ⟨s', houtlined, hdepths⟩ := hmeets.exec_outlineFrom
    have hends : outlining program config node world.state = (.error e, s') := houtlined
    have hending : ending (outlining program config node world.state).1 = .error e := by
      rw [hends]
      rfl
    have hcalls : (outlining program config node world.state).2.callDepths = t.callDepths := by
      rw [hends]
      exact hdepths
    refine ⟨?_, ?_, ?_, ?_, ?_⟩
    · exact ending_eq_error.1 ((hsound.ending_render program node world).trans hending)
    · exact (hsound.agree program node world).beside.callDepths.trans hcalls
    · exact ending_eq_error.1
        ((hsoundlive.ending_render host program node container world).trans hending)
    · have agree := hsoundlive.agree (LiveRenderer.realizes_any host _ _) program node world
      exact agree.beside.callDepths.trans hcalls
    · have agree := hsound.agree_streamed program node world
      obtain ⟨items, last, hdrains, hconcludes⟩ := r.concludes_drain program node world
      refine ⟨items, last, hdrains, ?_, ?_⟩
      · exact ending_eq_error.1 ((hconcludes.outcome.trans agree.ending).trans hending)
      · rw [hconcludes.walk]
        exact agree.beside.callDepths.trans hcalls

/-- A producer that fails, resolved by a provider that panics afterwards. The provider around it has
another component resolved then, and returns a text as if nothing had been. -/
def Program.insistent : Program String Nat where
  produce name calls :=
    if name = "broken" then return (.error (.refused name), calls + 1)
    else return (.ok (.text (.str name)), calls + 1)
  provide name _ _ calls :=
    if name = "outer" then
      .resolve (return (.component (.provider "inner"), calls + 1)) fun _ calls =>
        .resolve (return (.component (.producer "fine"), calls)) fun _ calls =>
          .finish (return (.ok (.text (.str "fine")), calls))
    else
      .resolve (return (.component (.producer "broken"), calls + 1)) fun _ calls =>
        .finish (return (.error (.panicked none), calls))
  compute _ calls := return (.error none, calls)

theorem fatal_error_ends_renders_insistent :
    let r : MarkupRenderer String := .fresh { throwOnError := true }
    let world : World Nat := { state := 0, clock := { reading := id } }
    (r.render Program.insistent (.component (.provider "outer")) world).value.result =
        .error (.failed ⟨"broken"⟩) ∧
      (r.walked Program.insistent (.component (.provider "outer")) world).2.callDepths =
        [3, 2, 1] := by
  intro r world
  have hr : r.Reachable { throwOnError := true } := .new rfl
  have hlive : (LiveRenderer.fresh { throwOnError := true } {} :
      LiveRenderer (Dom.Document String)).Reachable Dom.Document.host { throwOnError := true } :=
    .new rfl
  have hrenders := (fatal_error_ends_renders hr hlive Program.insistent).2
    (.component (.provider "outer")) none world _ _
    (.called (.provider (.request (.called rfl (.provider (.request (.failed rfl rfl rfl)))))))
  exact ⟨hrenders.1, hrenders.2.1⟩

end TreeRender
