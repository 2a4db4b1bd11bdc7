import TreeRender.Proofs.Stream.Drain

/-!
# What streaming gives

Streaming a tree tracks outlining it, like rendering does, but the markup is that of the outline top
down. Subtrees that may be cached are written as a render writes them; they have no function, so the
order makes no difference there.
-/

namespace TreeRender.Markup

variable {F σ : Type} {program : Program F σ} {config : Config}

/-- The markup `u` is the outline `o` written top down, which leaves the registry at `r'`. -/
def WrittenTopDown (config : Config) (r r' : Registry F) (u : String) (o : Outline F) : Prop :=
  o.topDown config.enableHydration config.errorFallback r = (u, r')

private theorem WrittenTopDown.join {r r' : Registry F} {us : List String} {os : List (Outline F)}
    (h : Chain (WrittenTopDown config) r r' us os) :
    WrittenTopDown config r r' (String.join us) (.join os) := by
  induction h with
  | nil => rfl
  | cons hr _ ih =>
    rw [WrittenTopDown] at hr ih ⊢
    rw [Outline.join, Outline.topDown_append, hr, ih, String.join_cons]

private theorem realizesText_topDown :
    (backend config.enableHydration).RealizesText config.errorFallback
      (WrittenTopDown (F := F) config) where
  text b content := by
    change (escape content ++ "", b) = (escape content, b)
    rw [String.append_empty]
  fallback b := by
    change (config.errorFallback ++ "", b) = (config.errorFallback, b)
    rw [String.append_empty]

theorem tracks_pieceOf {levels depth : Nat} (hdepth : depth + levels = config.maxDepth)
    {e : Element F (Node F)} (hcacheable : config.isCacheable e = true) (r : Registry F) :
    Walk.Tracks (WalkState.Beside config F) r (WrittenTopDown config r)
      (pieceOf program config (levels + 1) depth (.element e))
      (outlineFrom program config (levels + 1) depth (.element e)) := by
  have hfree := Config.isCacheable_functionFree hcacheable
  have hlevels : depth + (levels + 1) = config.maxDepth + 1 := by omega
  refine ((tracks_bottomUp hlevels (.element e) r).and_right fun t o t' h =>
    outline_of_exec program config hfree h).imp ?_
  rintro r' u o ⟨hwritten, rfl⟩
  have hstatic := Node.static_outline hfree
  rw [hstatic.bottomUp_eq] at hwritten
  rw [WrittenTopDown, hstatic.topDown_eq, hwritten]

theorem opening_void {e : Element F (Node F)} (h : isVoid e.tag = true) :
    (opening program config e : Walk σ (Registry F) String) = (do
      Walk.count Scene.countElement
      let tag ← Walk.onBackend (openTag config.enableHydration e)
      liftM (reportContent e)
      return tag) := by
  simp only [opening, h, if_true]

theorem opening_content {e : Element F (Node F)} (h : isVoid e.tag = false) :
    opening program config e = (do
      Walk.count Scene.countElement
      let tag ← Walk.onBackend (openTag config.enableHydration e)
      let directive ← walkDirective program config (backend config.enableHydration) e.text
      return tag ++ String.join directive) := by
  simp only [opening, h, Bool.false_eq_true, if_false]

private theorem tracks_openTag (e : Element F (Node F)) (r : Registry F) :
    Walk.Tracks (WalkState.Beside (σ := σ) config F) r
      (fun r' tag _ => openText config.enableHydration e r = (tag, r'))
      (Walk.onBackend (openTag config.enableHydration e))
      (Walk.onBackend (Outline.backend.enter e)) :=
  tracks_onBackend (value_openTag config.enableHydration e r).symm

private theorem writtenTopDown_element {e : Element F (Node F)} {r r₁ r₂ : Registry F}
    {tag inner : String}
    {content : Outline F} (htag : openText config.enableHydration e r = (tag, r₁))
    (hcontent : WrittenTopDown config r₁ r₂ inner content) :
    WrittenTopDown config r r₂ (tag ++ bodyText e inner) (.element e content .nil) := by
  rw [WrittenTopDown] at hcontent ⊢
  simp only [Outline.topDown, htag, hcontent, String.append_empty]

private theorem tracks_streamedElement {levels depth : Nat}
    (hdepth : depth + levels = config.maxDepth)
    {f : Node F → Walk σ (Registry F) String}
    (hbelow : ∀ n r, Walk.Tracks (WalkState.Beside config F) r (WrittenTopDown config r) (f n)
      (outlineFrom program config levels (depth + 1) n))
    (e : Element F (Node F)) (r : Registry F) :
    Walk.Tracks (WalkState.Beside config F) r (WrittenTopDown config r)
      ((streamed program config).element f levels depth e)
      (walkElement program config Outline.backend (outlineFrom program config levels (depth + 1))
        depth e) := by
  simp only [streamed]
  by_cases hcacheable : config.isCacheable e = true
  · rw [if_pos hcacheable]
    exact tracks_pieceOf hdepth hcacheable r
  rw [if_neg hcacheable]
  cases hvalid : isValidName e.tag with
  | false =>
    rw [walkElement_invalid hvalid]
    apply Walk.Tracks.logged _ _
    rintro s t rfl hst
    exact .ok rfl hst
  | true =>
    rw [walkElement_uncached hvalid rfl]
    cases hvoid : isVoid e.tag with
    | true =>
      simp only [Bool.not_true, Bool.false_eq_true, if_false, if_true, opening_void hvoid]
      rw [buildElement_void hvoid]
      refine tracks_countElement (.bind (tracks_openTag e r) fun r₁ tag _ htag => ?_)
      apply Walk.Tracks.logged _ _
      rintro s t rfl hst
      have hempty : WrittenTopDown config s.backend s.backend "" .nil := rfl
      have hwritten := writtenTopDown_element htag hempty
      rw [bodyText, hvoid, if_pos rfl, String.append_empty] at hwritten
      exact .ok hwritten hst
    | false =>
      simp only [Bool.not_true, Bool.false_eq_true, if_false, opening_content hvoid, bind_assoc,
        pure_bind]
      rw [buildElement_content hvoid]
      refine tracks_countElement (.bind (tracks_openTag e r) fun r₁ tag _ htag => ?_)
      apply Walk.Tracks.bind (tracks_walkDirective realizesText_topDown e.text r₁)
      intro r₂ us os hus
      apply Walk.Tracks.bind (tracks_walkEach e.childNodes (fun n _ r => hbelow n r) r₂)
      rintro _ us' os' hus' s t rfl hst
      have hcontent := WrittenTopDown.join (hus.append hus')
      have hwritten := writtenTopDown_element htag hcontent
      rw [bodyText, hvoid, if_neg Bool.false_ne_true, String.join_append] at hwritten
      refine .ok ?_ hst
      simp only [String.append_assoc] at hwritten ⊢
      exact hwritten

/-- Streaming a node tracks outlining it: what is written is the outline's markup, top down. -/
theorem tracks_topDown {levels depth : Nat} (hdepth : depth + levels = config.maxDepth + 1)
    (node : Node F) (r : Registry F) :
    Walk.Tracks (WalkState.Beside config F) r (WrittenTopDown config r)
      ((streamed program config).visit program config levels depth node)
      (outlineFrom program config levels depth node) := by
  have simulates : Traversal.Simulates program config (WalkState.Beside config F)
      (WrittenTopDown config) (streamed program config)
      (.ofBackend program config Outline.backend) := {
    calls := tracks_call
    empty := by
      rintro _ s t rfl hst
      exact .ok rfl hst
    text := by
      rintro content _ s t rfl hst
      exact .ok (realizesText_topDown.text s.backend content) hst
    fragment := by
      rintro r us os _ hchain s t rfl hst
      exact .ok (WrittenTopDown.join hchain) hst
    recover := tracks_recover realizesText_topDown
    element := by
      intro levels depth hdepth hbelow e r
      have below : (Traversal.ofBackend program config Outline.backend).visit program config levels
          (depth + 1) = outlineFrom program config levels (depth + 1) :=
        funext fun n => (Traversal.walkFrom_eq_visit ..).symm
      rw [below]
      exact tracks_streamedElement hdepth (fun n r => below ▸ hbelow n r) e r }
  rw [outlineFrom, Traversal.walkFrom_eq_visit]
  exact simulates.visit hdepth node r

end TreeRender.Markup
