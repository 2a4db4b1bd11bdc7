import TreeRender.Proofs.Stream.TopDown

/-!
# Streaming without hydration

When no handler is published, streaming a tree does exactly what rendering it does: it gives the
same markup or error, and leaves the same counts, the same cache and the same state of the
functions.
-/

namespace TreeRender

open Markup

variable {F σ β α : Type}

namespace Walk

private theorem exec_eq_of_tracks {x y : Walk σ β α}
    (h : ∀ b, Tracks Eq b (fun _ a c => a = c) x y) (s : WalkState σ β) : x.exec s = y.exec s := by
  have agree := h s.backend s s rfl rfl
  generalize x.exec s = p at agree ⊢
  generalize y.exec s = q at agree ⊢
  cases agree with
  | ok hq hs => rw [hq, hs]
  | error hs => rw [hs]

private theorem tracks_of_exec_eq {x y : Walk σ β α} (h : ∀ s, x.exec s = y.exec s) (b : β) :
    Tracks Eq b (fun _ a c => a = c) x y := by
  rintro s _ hb rfl
  rw [h s]
  exact Tracks.self y b s s hb rfl

end Walk

namespace Markup

private theorem eq_of_chain {r r' : Registry F} {us vs : List String}
    (h : Chain (fun _ _ u v => u = v) r r' us vs) : us = vs := by
  induction h with
  | nil => rfl
  | cons hr _ ih => rw [hr, ih]

variable {program : Program F σ} {config : Config}

private theorem tracks_dryTag (hdry : config.enableHydration = false) (e : Element F (Node F))
    (r : Registry F) :
    Walk.Tracks (Eq (α := WalkState σ (Registry F))) r (fun r' tag _ => r' = r ∧ tag = dryTag e)
      (Walk.onBackend (openTag config.enableHydration e))
      (Walk.onBackend ((backend config.enableHydration).enter e)) := by
  rintro s _ rfl rfl
  have hvalue := value_openTag config.enableHydration e s.backend
  rw [hdry, openText_dry] at hvalue
  rw [hdry, Walk.exec_onBackend, hvalue]
  exact .ok ⟨rfl, rfl⟩ rfl

private theorem tracks_element_dry (hdry : config.enableHydration = false) (e : Element F (Node F))
    (content : List String) (r : Registry F) :
    Walk.Tracks (Eq (α := WalkState σ (Registry F))) r (fun _ u v => u = v)
      (return dryTag e ++ bodyText e (String.join content))
      (Walk.onBackend ((backend config.enableHydration).element e content)) := by
  rintro s _ rfl rfl
  have hvalue := value_elementText config.enableHydration e content s.backend
  rw [hdry, openText_dry] at hvalue
  change Walk.Agree _ _ _ ((Walk.onBackend (elementText config.enableHydration e content)).exec s)
  rw [hdry, Walk.exec_onBackend, hvalue]
  exact .ok rfl rfl

private theorem tracks_streamedElement_dry (hdry : config.enableHydration = false)
    (levels depth : Nat)
    {f : Node F → Walk σ (Registry F) String}
    (hbelow : ∀ n r, Walk.Tracks Eq r (fun _ u v => u = v) (f n)
      (walkFrom program config (backend config.enableHydration) levels (depth + 1) n))
    (e : Element F (Node F)) (r : Registry F) :
    Walk.Tracks Eq r (fun _ u v => u = v)
      ((streamed program config).element f levels depth e)
      (walkElement program config (backend config.enableHydration)
        (walkFrom program config (backend config.enableHydration) levels (depth + 1)) depth e) := by
  simp only [streamed]
  by_cases hcacheable : config.isCacheable e = true
  · rw [if_pos hcacheable]
    exact .self _ r
  rw [if_neg hcacheable]
  cases hvalid : isValidName e.tag with
  | false =>
    rw [walkElement_invalid hvalid]
    exact Walk.tracks_of_exec_eq (fun _ => rfl) r
  | true =>
    have huncached : ((backend (F := F) config.enableHydration).cachesFragments &&
        config.isCacheable e) = false := by
      rw [Bool.not_eq_true] at hcacheable
      rw [hcacheable, Bool.and_false]
    rw [walkElement_uncached hvalid huncached]
    cases hvoid : isVoid e.tag with
    | true =>
      simp only [Bool.not_true, Bool.false_eq_true, if_false, if_true, opening_void hvoid]
      rw [buildElement_void hvoid]
      refine .step _ fun r _ => ?_
      apply Walk.Tracks.bind (tracks_dryTag hdry e r)
      rintro r₁ tag _ ⟨-, rfl⟩
      apply Walk.Tracks.logged
      have hmade := tracks_element_dry (σ := σ) hdry e [] r₁
      rw [bodyText, hvoid, if_pos rfl, String.append_empty] at hmade
      exact hmade
    | false =>
      simp only [Bool.not_true, Bool.false_eq_true, if_false, opening_content hvoid, bind_assoc,
        pure_bind]
      rw [buildElement_content hvoid]
      refine .step _ fun r _ => ?_
      apply Walk.Tracks.bind (tracks_dryTag hdry e r)
      rintro r₁ tag _ ⟨-, rfl⟩
      refine .step _ fun r₂ directive => ?_
      apply Walk.Tracks.bind (tracks_walkEach e.childNodes (fun n _ r => hbelow n r) r₂)
      intro r₃ children children' hchildren
      obtain rfl := eq_of_chain hchildren
      have hmade := tracks_element_dry (σ := σ) hdry e (directive ++ children) r₃
      rw [bodyText, hvoid, if_neg Bool.false_ne_true, String.join_append] at hmade
      simp only [String.append_assoc] at hmade ⊢
      exact hmade

theorem exec_streamed_dry (hdry : config.enableHydration = false) (levels depth : Nat)
    (hdepth : depth + levels = config.maxDepth + 1) (node : Node F)
    (s : WalkState σ (Registry F)) :
    ((streamed program config).visit program config levels depth node).exec s =
      (walkFrom program config (backend config.enableHydration) levels depth node).exec s := by
  have simulates : Traversal.Simulates program config Eq (fun _ _ u v => u = v)
      (streamed program config) (.ofBackend program config (backend config.enableHydration)) := {
    calls := by
      rintro α x hx b s _ rfl rfl
      exact .ok ⟨rfl, rfl⟩ rfl
    empty := Walk.tracks_of_exec_eq fun _ => rfl
    text := fun text => Walk.tracks_of_exec_eq fun _ => rfl
    fragment := by
      intro r us vs r' hchain
      obtain rfl := eq_of_chain hchain
      exact Walk.tracks_of_exec_eq (fun _ => rfl) r'
    recover := fun cause => .self _
    element := by
      intro levels depth _ hbelow e r
      have below : (Traversal.ofBackend program config (backend config.enableHydration)).visit
          program config levels (depth + 1) =
          walkFrom program config (backend config.enableHydration) levels (depth + 1) :=
        funext fun n => (Traversal.walkFrom_eq_visit ..).symm
      rw [below]
      exact tracks_streamedElement_dry hdry levels depth (fun n r => below ▸ hbelow n r) e r }
  rw [Traversal.walkFrom_eq_visit]
  exact Walk.exec_eq_of_tracks (fun b => simulates.visit hdepth node b) s

end Markup

end TreeRender
