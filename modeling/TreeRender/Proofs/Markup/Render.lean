import TreeRender.Markup.Renderer
import TreeRender.Proofs.Outline.Realize

/-!
# What rendering to markup gives

The units of the markup backend stand for outlines written bottom up. So what a render gives, and
what it leaves in the registry, is told by the outline of the tree alone, whatever the cache holds
as long as it is valid.
-/

namespace TreeRender

open Markup

variable {F σ : Type}

namespace Outline

variable {hydrate : Bool} {fallback : String}

private theorem bottomUp_join {b b₁ : Registry F} {us : List String} {os : List (Outline F)}
    (h : Chain (fun b b' u o => o.bottomUp hydrate fallback b = (u, b')) b b₁ us os) :
    (join os).bottomUp hydrate fallback b = (String.join us, b₁) := by
  induction h with
  | nil => rfl
  | cons hr _ ih => rw [join, bottomUp_append, hr, ih, String.join_cons]

end Outline

theorem Markup.realizes (hydrate : Bool) (fallback : String) :
    (backend hydrate : Backend F (Registry F) String).Realizes fallback
      (fun b b' u o => o.bottomUp hydrate fallback b = (u, b')) where
  empty b := rfl
  text b content := by
    change (escape content ++ "", b) = (escape content, b)
    rw [String.append_empty]
  fallback b := by
    change (fallback ++ "", b) = (fallback, b)
    rw [String.append_empty]
  fragment h := Outline.bottomUp_join h
  element {b b₁ us os} e _ _ h := by
    have hcontent : (Outline.join os).bottomUp hydrate fallback b = (String.join us, b₁) :=
      Outline.bottomUp_join h
    have hwritten : (Outline.element e (.join os) .nil).bottomUp hydrate fallback b =
        ((openText hydrate e b₁).1 ++ bodyText e (String.join us), (openText hydrate e b₁).2) := by
      simp only [Outline.bottomUp, hcontent, String.append_empty]
    exact hwritten.trans (value_elementText hydrate e us b₁).symm
  restore _ b e he :=
    ⟨e.plainMarkup, b, rfl, (Node.static_outline he).bottomUp_eq hydrate fallback b⟩
  store _ b b' u e he h := by
    have hstatic := (Node.static_outline he).bottomUp_eq hydrate fallback b
    obtain ⟨rfl, -⟩ := Prod.mk.inj (hstatic.symm.trans h)
    rfl

/-- Rendering a node tracks outlining it: what is written is the outline's markup, bottom up. -/
theorem tracks_bottomUp {program : Program F σ} {config : Config} {levels depth : Nat}
    (hdepth : depth + levels = config.maxDepth + 1) (node : Node F) (r : Registry F) :
    Walk.Tracks (WalkState.Beside config F) r
      (fun r' u o => o.bottomUp config.enableHydration config.errorFallback r = (u, r'))
      (walkFrom program config (backend config.enableHydration) levels depth node)
      (outlineFrom program config levels depth node) :=
  (Markup.realizes _ _).tracks hdepth node r

theorem agree_walk {program : Program F σ} {config : Config} {node : Node F}
    {s : WalkState σ (Registry F)} (hcache : s.cache.Valid F config)
    (hscene : s.toScene = { state := s.state }) :
    Walk.Agree (WalkState.Beside config F)
      (fun b u o => o.bottomUp config.enableHydration config.errorFallback s.backend = (u, b))
      ((walk program config (backend config.enableHydration) 1 node).exec s)
      (outlining program config node s.state) := by
  have hdepth : 1 + config.levelsAt 1 = config.maxDepth + 1 := Nat.add_comm _ _
  apply tracks_bottomUp hdepth node s.backend s (outlineStart s.state) rfl
  refine ⟨rfl, ?_, ?_, ?_, hcache⟩
  · rw [hscene]; rfl
  · rw [hscene]; rfl
  · rw [hscene]; rfl

end TreeRender
