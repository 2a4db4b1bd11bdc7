import TreeRender.Proofs.Dom.Parity
import TreeRender.Proofs.Outline.Twin

/-!
# The live nodes of an outline

What a host is asked for while a tree is rendered to live nodes is told by the outline of the tree:
its texts and elements in order, the content of an element before the element. So whatever the host
is, outlines that show the same make the same live nodes and leave the host the same.
-/

namespace TreeRender

variable {F H N σ : Type}

namespace Outline

section

variable (host : Dom.Host F H N) (default : Option String) (fallback : String)

/-- The live nodes of an outline, and the host after they are made. -/
def live : Outline F → Dom.HostState H → List N × Dom.HostState H
  | .nil, b => ([], b)
  | .text content rest, b =>
    let (made, b) := ((Dom.backend host default).text content b).value
    let (more, b) := live rest b
    (made ++ more, b)
  | .fallback rest, b =>
    let (made, b) := ((Dom.backend host default).fallback fallback b).value
    let (more, b) := live rest b
    (made ++ more, b)
  | .element e content rest, b =>
    let ((), b) := ((Dom.backend host default).enter e b).value
    let (inner, b) := live content b
    let (made, b) := ((Dom.backend host default).element e [inner] b).value
    let (more, b) := live rest b
    (made ++ more, b)

end

variable {host : Dom.Host F H N} {default : Option String} {fallback : String}

private theorem live_append (o o' : Outline F) (b : Dom.HostState H) :
    (o ++ o').live host default fallback b =
      ((o.live host default fallback b).1 ++
        (o'.live host default fallback (o.live host default fallback b).2).1,
       (o'.live host default fallback (o.live host default fallback b).2).2) := by
  induction o generalizing b with
  | nil => rfl
  | text content rest ih => simp only [text_append, live, ih, List.append_assoc]
  | fallback rest ih => simp only [fallback_append, live, ih, List.append_assoc]
  | element e content rest _ ih => simp only [element_append, live, ih, List.append_assoc]

private theorem live_join {b b₁ : Dom.HostState H} {us : List (List N)} {os : List (Outline F)}
    (h : Chain (fun b b' u o => o.live host default fallback b = (u, b')) b b₁ us os) :
    (join os).live host default fallback b = (us.flatten, b₁) := by
  induction h with
  | nil => rfl
  | cons hr _ ih => rw [join, live_append, hr, ih, List.flatten_cons]

theorem Twin.live_eq {o o' : Outline F} (h : o.Twin o') (b : Dom.HostState H) :
    o'.live host default fallback b = o.live host default fallback b := by
  induction h generalizing b with
  | nil => rfl
  | text _ ih => simp only [live, ih]
  | fallback _ ih => simp only [live, ih]
  | @element e e' content content' rest rest' htag hmapped _ _ ihc ih =>
    have henter : (Dom.backend host default).enter e' = (Dom.backend host default).enter e := by
      simp only [Dom.backend, htag]
    have helement : (Dom.backend host default).element e' =
        (Dom.backend host default).element e := by
      funext units
      simp only [Dom.backend, Dom.assemble, htag, hmapped]
    simp only [live, henter, helement, ihc, ih]

end Outline

private theorem Dom.realizes_live (host : Dom.Host F H N) (default : Option String)
    (fallback : String) :
    (Dom.backend host default).Realizes fallback
      (fun b b' u o => o.live host default fallback b = (u, b')) where
  empty _ := rfl
  text b content := by
    change (((backend host default).text content b).value.1 ++ [], _) = _
    rw [List.append_nil]
  fallback b := by
    change (((backend host default).fallback fallback b).value.1 ++ [], _) = _
    rw [List.append_nil]
  fragment h := Outline.live_join h
  element {b b₁ us os} e _ _ h := by
    have hcontent := Outline.live_join h
    have hflat : (backend host default).element e [us.flatten] =
        (backend host default).element e us := by
      simp only [backend, List.flatten_cons, List.flatten_nil, List.append_nil]
    simp only [Outline.live, hcontent, hflat, List.append_nil]
  restore h := nomatch h
  store h := nomatch h

namespace LiveRenderer

variable {config : Config} {r : LiveRenderer H}

/-- The outline of a tree tells which live nodes a render makes and how it leaves the host. -/
theorem Sound.live_eq (h : r.Sound F config) (host : Dom.Host F H N) (program : Program F σ)
    (node : Node F) (container : Option N) (world : World σ) :
    let made (o : Outline F) := o.live host config.defaultNamespace config.errorFallback
      { host := r.host }
    (r.render host program node container world).value.result =
      (outlining program config node world.state).1.map (made · |>.1) ∧
    ∀ o, (outlining program config node world.state).1 = .ok o →
      (r.render host program node container world).value.renderer.host =
        (Dom.mount host config.enableHydration container (made o).1 (made o).2.host).value.2 := by
  intro made
  have agree := h.agree (Dom.realizes_live host _ _) program node world
  rw [value_render, h.configured]
  generalize r.walked host program node world = p at agree ⊢
  generalize outlining program config node world.state = q at agree ⊢
  cases agree with
  | error _ => exact ⟨rfl, fun _ ho => nomatch ho⟩
  | @ok nodes o s t hmade _ =>
    have hnodes : (made o).1 = nodes := congrArg Prod.fst hmade
    have hhost : (made o).2 = s.backend := congrArg Prod.snd hmade
    refine ⟨(congrArg Except.ok hnodes).symm, fun o' ho => ?_⟩
    cases ho
    rw [hnodes, hhost]
    rfl

end LiveRenderer

end TreeRender
